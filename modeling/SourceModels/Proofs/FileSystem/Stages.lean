import Mathlib.Logic.Relation
import SourceModels.Proofs.FileSystem.Aside
import SourceModels.Proofs.FileSystem.Ways

/-! Looking up a path, one step at a time. Every lookup comes to an end within the links allowed, and
a walk tells how it ends. -/
namespace SourceModels.FileSystem

/-- Where a lookup stands: how many links it has followed, the place it is at and the names that are
still ahead. -/
structure Stage where
  followed : Nat
  here : Location
  ahead : List String

namespace Stage

inductive Next (fs : FileSystem) : Stage → Stage → Prop where
  | dot {followed : Nat} {here : Location} {rest : List String}
      (held : fs.content? here = some .directory) :
      Next fs ⟨followed, here, "." :: rest⟩ ⟨followed, here, rest⟩
  | dots {followed : Nat} {here : Location} {rest : List String}
      (held : fs.content? here = some .directory) :
      Next fs ⟨followed, here, ".." :: rest⟩ ⟨followed, here.tail, rest⟩
  | down {followed : Nat} {here : Location} {name : String} {rest : List String}
      {content : Content} (held : fs.content? here = some .directory)
      (named : name ≠ "." ∧ name ≠ "..") (next : fs.content? (name :: here) = some content)
      (unlinked : ∀ target, content ≠ .link target) :
      Next fs ⟨followed, here, name :: rest⟩ ⟨followed, name :: here, rest⟩
  | link {followed : Nat} {here : Location} {name target : String} {rest : List String}
      (held : fs.content? here = some .directory) (named : name ≠ "." ∧ name ≠ "..")
      (next : fs.content? (name :: here) = some (.link target)) :
      Next fs ⟨followed, here, name :: rest⟩
        ⟨followed + 1, if Path.isAbsolute target then [] else here, components target ++ rest⟩

def Reaches (fs : FileSystem) : Stage → Stage → Prop := Relation.ReflTransGen (Next fs)

def LooksUp (fs : FileSystem) (s : Stage) (location : Location) : Prop :=
  ∃ name rest, s.ahead = name :: rest ∧ fs.content? s.here = some .directory ∧
    (name ≠ "." ∧ name ≠ "..") ∧ location = name :: s.here

def Arrived (fs : FileSystem) (s : Stage) : Prop :=
  s.ahead = [] ∧ ∃ content, fs.content? s.here = some content

def Missing (fs : FileSystem) (s : Stage) : Prop :=
  ∃ location, s.LooksUp fs location ∧ fs.content? location = none

def Blocked (fs : FileSystem) (s : Stage) : Prop :=
  s.ahead ≠ [] ∧ ∃ content, fs.content? s.here = some content ∧ content ≠ .directory

def Spent (fs : FileSystem) (s : Stage) : Prop :=
  ∃ t, Next fs s t ∧ s.followed ≤ maxLinks ∧ maxLinks < t.followed

def Ended (fs : FileSystem) (s : Stage) : Prop :=
  s.Arrived fs ∨ s.Missing fs ∨ s.Blocked fs ∨ s.Spent fs

theorem descend (fs : FileSystem) {P : Stage → Prop}
    (step : ∀ s, (∀ t, Next fs s t → t.followed ≤ maxLinks → P t) → P s) (s : Stage) : P s :=
  step s fun t _ _ => descend fs step t
termination_by (maxLinks - s.followed, s.ahead.length)
decreasing_by
  rename_i next bound
  cases next with
  | link => exact .left _ _ (by simp only at bound ⊢; omega)
  | _ => exact .right _ (by simp)

theorem Next.followedGrows {fs : FileSystem} {s t : Stage} (next : Next fs s t) :
    s.followed ≤ t.followed := by
  cases next <;> simp

theorem Spent.atLink {fs : FileSystem} {s : Stage} (spent : s.Spent fs) :
    ∃ name target rest, s.ahead = name :: rest ∧ maxLinks - s.followed = 0 ∧
      fs.content? s.here = some .directory ∧ (name ≠ "." ∧ name ≠ "..") ∧
      fs.content? (name :: s.here) = some (.link target) := by
  obtain ⟨t, next, few, many⟩ := spent
  cases next with
  | link held named next =>
    exact ⟨_, _, _, rfl, Nat.sub_eq_zero_of_le (Nat.le_of_lt_succ many), held, named, next⟩
  | _ =>
    simp only at few many
    omega

theorem Reaches.followedGrows {fs : FileSystem} {s t : Stage} (reaches : Reaches fs s t) :
    s.followed ≤ t.followed := by
  induction reaches with
  | refl => exact Nat.le_refl _
  | tail _ next ih => exact Nat.le_trans ih next.followedGrows

end Stage

def LinksFilled (fs : FileSystem) : Prop :=
  ∀ location target, fs.content? location = some (.link target) → target ≠ ""

def Stage.Standing (fs : FileSystem) (s : Stage) : Prop :=
  ∃ content, fs.content? s.here = some content ∧ ∀ target, content ≠ .link target

def Stage.walk (fs : FileSystem) (s : Stage) : Except Fault (Location × Content) :=
  existing (FileSystem.walk fs true (maxLinks - s.followed) s.here s.ahead)

def Stage.passed (fs : FileSystem) (s : Stage) : List Location :=
  FileSystem.passed fs (maxLinks - s.followed) s.here s.ahead

theorem Stage.Standing.progress {fs : FileSystem} {s : Stage} (stands : s.Standing fs)
    (bound : s.followed ≤ maxLinks) :
    s.Ended fs ∨ ∃ t, Stage.Next fs s t ∧ t.followed ≤ maxLinks := by
  obtain ⟨followed, here, ahead⟩ := s
  obtain ⟨content, held, unlinked⟩ := stands
  cases ahead with
  | nil => exact .inl (.inl ⟨rfl, content, held⟩)
  | cons name rest =>
    by_cases directory : content = .directory
    · subst directory
      by_cases dot : name = "."
      · subst dot
        exact .inr ⟨_, .dot held, bound⟩
      by_cases dots : name = ".."
      · subst dots
        exact .inr ⟨_, .dots held, bound⟩
      cases next : fs.content? (name :: here) with
      | none =>
        exact .inl (.inr (.inl ⟨_, ⟨name, rest, rfl, held, ⟨dot, dots⟩, rfl⟩, next⟩))
      | some entry =>
        by_cases linked : ∃ target, entry = .link target
        · obtain ⟨target, rfl⟩ := linked
          have step := @Stage.Next.link fs followed here name target rest held ⟨dot, dots⟩ next
          by_cases spent : followed < maxLinks
          · exact .inr ⟨_, step, spent⟩
          · exact .inl (.inr (.inr (.inr ⟨_, step, bound, by dsimp only; omega⟩)))
        · exact .inr ⟨_, .down held ⟨dot, dots⟩ next (by simpa using linked), bound⟩
    · exact .inl (.inr (.inr (.inl ⟨by simp, content, held, directory⟩)))

namespace Stage

variable {fs : FileSystem} {s t : Stage} {location : Location}

theorem passedEnded (ended : s.Ended fs) (inside : location ∈ s.passed fs) :
    s.LooksUp fs location := by
  obtain ⟨followed, here, ahead⟩ := s
  rcases ended with ⟨rfl, _⟩ | ⟨_, ⟨name, rest, rfl, held, named, rfl⟩, missing⟩ |
    ⟨_, content, held, other⟩ | spent
  · simp [Stage.passed, passedHere] at inside
  · rw [Stage.passed, passedMissing held named missing, List.mem_singleton] at inside
    exact ⟨name, rest, rfl, held, named, inside⟩
  · rw [Stage.passed, passedStill (by simpa [held] using other)] at inside
    contradiction
  · obtain ⟨name, target, rest, rfl, none, held, named, next⟩ := spent.atLink
    rw [Stage.passed, none, passedAtLink held named next] at inside
    exact ⟨_, _, rfl, held, named, List.mem_singleton.mp inside⟩

theorem looksUpNamed {followed : Nat} {here : Location} {name : String} {rest : List String}
    (held : fs.content? here = some .directory) (named : name ≠ "." ∧ name ≠ "..") :
    (Stage.mk followed here (name :: rest)).LooksUp fs location ↔ location = name :: here := by
  constructor
  · rintro ⟨_, _, same, _, _, rfl⟩
    rw [(List.cons.inj same).1]
  · rintro rfl
    exact ⟨name, rest, rfl, held, named, rfl⟩

theorem looksUpDotted {followed : Nat} {here : Location} {name : String} {rest : List String}
    (dotted : name = "." ∨ name = "..") :
    ¬ (Stage.mk followed here (name :: rest)).LooksUp fs location := by
  rintro ⟨_, _, same, _, named, _⟩
  rw [← (List.cons.inj same).1] at named
  exact dotted.elim named.1 named.2

theorem passedNext (next : Next fs s t) (bound : t.followed ≤ maxLinks) :
    location ∈ s.passed fs ↔ s.LooksUp fs location ∨ location ∈ t.passed fs := by
  cases next with
  | dot held =>
    rw [Stage.passed, passedDot held, or_iff_right (looksUpDotted (.inl rfl)), Stage.passed]
  | dots held =>
    rw [Stage.passed, passedDots held, or_iff_right (looksUpDotted (.inr rfl)), Stage.passed]
  | down held named next unlinked =>
    rw [Stage.passed, passedDown held named next unlinked, List.mem_cons,
      looksUpNamed held named, Stage.passed]
  | @link followed _ _ _ _ held named next =>
    have more : maxLinks - followed = maxLinks - (followed + 1) + 1 := by
      simp only at bound
      omega
    rw [Stage.passed, more, passedAcross held named next, List.mem_cons, looksUpNamed held named,
      Stage.passed]

theorem passedReached (reaches : Reaches fs s t) (bound : t.followed ≤ maxLinks)
    (looked : t.LooksUp fs location) : location ∈ s.passed fs := by
  induction reaches using Relation.ReflTransGen.head_induction_on with
  | refl =>
    obtain ⟨followed, here, ahead⟩ := t
    obtain ⟨name, rest, rfl, held, named, rfl⟩ := looked
    exact passedFirst held named rest
  | head next later ih =>
    exact (passedNext next (Nat.le_trans (Reaches.followedGrows later) bound)).mpr (.inr ih)

theorem Reaches.spent (reaches : Reaches fs s t) (few : s.followed ≤ maxLinks)
    (many : maxLinks < t.followed) : ∃ u, Reaches fs s u ∧ u.Spent fs := by
  induction reaches with
  | refl => omega
  | @tail u t before next ih =>
    by_cases already : maxLinks < u.followed
    · exact ih already
    · exact ⟨u, before, t, next, by omega, many⟩

end Stage

namespace Regular

variable {fs : FileSystem} (regular : Regular fs) {s t : Stage}
include regular

theorem standsNext (next : Stage.Next fs s t) : t.Standing fs := by
  cases next with
  | dot held => exact ⟨.directory, held, by simp⟩
  | dots held => exact ⟨.directory, regular.tail held, by simp⟩
  | down held named next unlinked => exact ⟨_, next, unlinked⟩
  | link held named next =>
    refine ⟨.directory, ?_, by simp⟩
    dsimp only
    split
    · rfl
    · exact held

theorem ends (stands : s.Standing fs) (bound : s.followed ≤ maxLinks) :
    ∃ last, Stage.Reaches fs s last ∧ last.followed ≤ maxLinks ∧ last.Ended fs := by
  induction s using Stage.descend fs with
  | step s ih =>
    rcases stands.progress bound with ended | ⟨t, next, more⟩
    · exact ⟨s, .refl, bound, ended⟩
    · obtain ⟨last, reaches, few, ended⟩ := ih t next more (regular.standsNext next) more
      exact ⟨last, .head next reaches, few, ended⟩

theorem passedMeans (stands : s.Standing fs) (bound : s.followed ≤ maxLinks)
    {location : Location} : location ∈ s.passed fs ↔
      ∃ t, Stage.Reaches fs s t ∧ t.followed ≤ maxLinks ∧ t.LooksUp fs location := by
  constructor
  · induction s using Stage.descend fs with
    | step s ih =>
      intro inside
      rcases stands.progress bound with ended | ⟨t, next, more⟩
      · exact ⟨s, .refl, bound, Stage.passedEnded ended inside⟩
      · rcases (Stage.passedNext next more).mp inside with looked | later
        · exact ⟨s, .refl, bound, looked⟩
        · obtain ⟨u, reaches, few, looked⟩ := ih t next more (regular.standsNext next) more later
          exact ⟨u, .head next reaches, few, looked⟩
  · rintro ⟨t, reaches, few, looked⟩
    exact Stage.passedReached reaches few looked

theorem walkNext (filled : LinksFilled fs) (next : Stage.Next fs s t)
    (bound : t.followed ≤ maxLinks) : s.walk fs = t.walk fs := by
  unfold Stage.walk
  cases next with
  | dot held => rw [walkDot held]
  | dots held => rw [walkDots held]
  | down held named next unlinked =>
    have entry := regular.named next _ List.mem_cons_self
    rw [walkDown held named entry.short next unlinked]
  | @link followed _ _ _ _ held named next =>
    have entry := regular.named next _ List.mem_cons_self
    have more : maxLinks - followed = maxLinks - (followed + 1) + 1 := by
      simp only at bound
      omega
    rw [more, walkLink held named entry.short next (filled _ _ next)]

theorem walkReached (filled : LinksFilled fs) (reaches : Stage.Reaches fs s t)
    (bound : t.followed ≤ maxLinks) : s.walk fs = t.walk fs := by
  induction reaches using Relation.ReflTransGen.head_induction_on with
  | refl => rfl
  | head next later ih =>
    have few := Nat.le_trans (Stage.Reaches.followedGrows later) bound
    rw [regular.walkNext filled next few, ih]

end Regular

end SourceModels.FileSystem
