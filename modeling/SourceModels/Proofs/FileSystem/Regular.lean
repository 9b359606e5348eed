import SourceModels.Proofs.FileSystem.Places
import SourceModels.Proofs.PathNames

/-! File systems as they can be: one entry at a location, with a name that can be looked up and in a
directory. In these the text of a location leads back to it. -/
namespace SourceModels.FileSystem

structure EntryName (name : String) : Prop where
  filled : name.toList ≠ []
  noSlash : '/' ∉ name.toList
  noNul : '\x00' ∉ name.toList
  named : name ≠ "." ∧ name ≠ ".."
  short : ¬ maxNameBytes < byteLength name

instance (name : String) : Decidable (EntryName name) :=
  decidable_of_iff (name.toList ≠ [] ∧ '/' ∉ name.toList ∧ '\x00' ∉ name.toList ∧
      (name ≠ "." ∧ name ≠ "..") ∧ ¬ maxNameBytes < byteLength name)
    ⟨fun ⟨filled, noSlash, noNul, named, short⟩ => ⟨filled, noSlash, noNul, named, short⟩,
      fun ⟨filled, noSlash, noNul, named, short⟩ => ⟨filled, noSlash, noNul, named, short⟩⟩

structure Regular (fs : FileSystem) : Prop where
  once : (fs.entries.map Prod.fst).Nodup
  names : ∀ e ∈ fs.entries, e.1 ≠ [] ∧ ∀ name ∈ e.1, EntryName name
  inside : ∀ e ∈ fs.entries, fs.content? e.1.tail = some .directory
  current : fs.content? fs.current = some .directory

instance (fs : FileSystem) : Decidable (Regular fs) :=
  decidable_of_iff ((fs.entries.map Prod.fst).Nodup ∧
      (∀ e ∈ fs.entries, e.1 ≠ [] ∧ ∀ name ∈ e.1, EntryName name) ∧
      (∀ e ∈ fs.entries, fs.content? e.1.tail = some .directory) ∧
      fs.content? fs.current = some .directory)
    ⟨fun ⟨once, names, inside, current⟩ => ⟨once, names, inside, current⟩,
      fun ⟨once, names, inside, current⟩ => ⟨once, names, inside, current⟩⟩

namespace Regular

variable {fs : FileSystem}

theorem held (regular : Regular fs) {name : String} {directory : Location} {content : Content} :
    fs.content? (name :: directory) = some content ↔ (name :: directory, content) ∈ fs.entries := by
  refine ⟨heldEntry, fun inside => ?_⟩
  obtain ⟨front, back, split⟩ := List.append_of_mem inside
  refine List.lookup_eq_some_iff.mpr ⟨front, back, split, ?_⟩
  intro e before
  have once := regular.once
  rw [split, List.map_append, List.nodup_append] at once
  exact bne_iff_ne.mpr (once.2.2 _ (List.mem_map_of_mem before) _ List.mem_cons_self).symm

theorem above (regular : Regular fs) {name : String} {directory : Location} {content : Content}
    (held : fs.content? (name :: directory) = some content) :
    fs.content? directory = some .directory :=
  regular.inside _ (heldEntry held)

theorem named (regular : Regular fs) {location : Location} {content : Content}
    (held : fs.content? location = some content) : ∀ name ∈ location, EntryName name := by
  cases location with
  | nil => simp
  | cons name directory => exact (regular.names _ (heldEntry held)).2

theorem tail (regular : Regular fs) {location : Location}
    (held : fs.content? location = some .directory) :
    fs.content? location.tail = some .directory := by
  cases location with
  | nil => rfl
  | cons name directory => exact regular.above held

theorem start (regular : Regular fs) (path : String) :
    fs.content? (fs.startOf path) = some .directory := by
  unfold startOf
  split
  · rfl
  · exact regular.current

theorem child (regular : Regular fs) {directory : Location} {name : String} {content : Content} :
    (name, content) ∈ fs.children directory ↔ fs.content? (name :: directory) = some content := by
  rw [regular.held, children, List.mem_filterMap]
  constructor
  · rintro ⟨⟨location, held⟩, inside, same⟩
    cases location with
    | nil => simp at same
    | cons last parent =>
      simp only [Option.ite_none_right_eq_some, Option.some.injEq, Prod.mk.injEq] at same
      obtain ⟨rfl, rfl, rfl⟩ := same
      exact inside
  · intro inside
    exact ⟨_, inside, by simp⟩

theorem childrenOnce (regular : Regular fs) (directory : Location) :
    ((fs.children directory).map Prod.fst).Nodup := by
  rw [List.Nodup, List.pairwise_map, children, List.pairwise_filterMap]
  refine (List.pairwise_map.mp regular.once).imp ?_
  rintro ⟨first, c⟩ ⟨second, d⟩ different a one b other same
  cases first with
  | nil => simp at one
  | cons name parent =>
    cases second with
    | nil => simp at other
    | cons name' parent' =>
      simp only [Option.ite_none_right_eq_some, Option.some.injEq] at one other
      obtain ⟨rfl, rfl⟩ := one
      obtain ⟨rfl, rfl⟩ := other
      exact different (by simpa using same)

theorem upper (regular : Regular fs) {front : List String} {here : Location}
    (held : fs.content? (front ++ here) = some .directory) :
    fs.content? here = some .directory := by
  induction front with
  | nil => exact held
  | cons name more ih => exact ih (regular.above held)

theorem along (regular : Regular fs) {front : List String} {here : Location} {content : Content}
    (held : fs.content? (front ++ here) = some content) :
    front = [] ∨ fs.content? here = some .directory := by
  cases front with
  | nil => exact .inl rfl
  | cons last more => exact .inr (regular.upper (regular.above held))

theorem walkedDown (regular : Regular fs) {names : List String} {here : Location}
    (led : fs.content? (names.reverse ++ here) = some .directory) (follow : Bool) (links : Nat)
    (rest : List String) :
    walk fs follow links here (names ++ rest) =
      walk fs follow links (names.reverse ++ here) rest := by
  induction names generalizing here with
  | nil => rfl
  | cons name more ih =>
    rw [List.reverse_cons, List.append_assoc, List.singleton_append] at led ⊢
    have reached := regular.upper led
    have last := regular.named reached name List.mem_cons_self
    rw [List.cons_append,
      walkDown (regular.above reached) last.named last.short reached (by simp), ih led]

theorem walkedTo (regular : Regular fs) {front : List String} {name : String} {here : Location}
    {content : Content} (led : fs.content? (name :: (front.reverse ++ here)) = some content)
    (unlinked : ∀ target, content ≠ .link target) (follow : Bool) (links : Nat) :
    walk fs follow links here (front ++ [name]) =
      .ok (.at (name :: (front.reverse ++ here)) content) := by
  have last := regular.named led name List.mem_cons_self
  rw [regular.walkedDown (regular.above led),
    walkDown (regular.above led) last.named last.short led unlinked, walkHere led]

end Regular

theorem slashedParts {names : List String} (plain : ∀ name ∈ names, EntryName name) :
    Path.parts (names.flatMap fun name => '/' :: name.toList) = names.map String.toList := by
  induction names with
  | nil => simp [Path.parts, Text.splitOn]
  | cons name rest ih =>
    have entry := plain name List.mem_cons_self
    have later := ih fun other inside => plain other (List.mem_cons_of_mem _ inside)
    have empty : Path.parts [] = [] := by simp [Path.parts, Text.splitOn]
    rw [List.flatMap_cons, List.map_cons]
    cases more : rest.flatMap fun name => '/' :: name.toList with
    | nil =>
      have none : rest = [] := List.eq_nil_iff_forall_not_mem.mpr (by simpa using more)
      rw [List.append_nil, ← List.nil_append ('/' :: _), Path.partsSlash, empty,
        Path.partsSingle entry.noSlash entry.filled, none]
      rfl
    | cons c back =>
      have slash : c = '/' := by
        cases rest with
        | nil => simp at more
        | cons next others =>
          simp only [List.flatMap_cons, List.cons_append, List.cons.injEq] at more
          exact more.1.symm
      subst slash
      rw [more, ← List.nil_append ('/' :: back), Path.partsSlash, empty, List.nil_append] at later
      rw [List.cons_append, ← List.nil_append ('/' :: _), Path.partsSlash, Path.partsSlash, empty,
        Path.partsSingle entry.noSlash entry.filled, later]
      rfl

theorem textChars {location : Location} (below : location ≠ []) :
    location.text.toList = location.reverse.flatMap fun name => '/' :: name.toList := by
  cases location with
  | nil => exact absurd rfl below
  | cons name directory =>
    simp [Location.text, String.toList_join, -List.map_reverse, List.flatMap_map,
      String.toList_append]

theorem textNames {location : Location} (plain : ∀ name ∈ location, EntryName name) :
    names location.text = location.reverse := by
  by_cases root : location = []
  · subst root
    decide
  · rw [names, textChars root, slashedParts (by simpa using plain), List.map_map]
    simp

theorem textAbsolute (location : Location) : Path.isAbsolute location.text = true := by
  by_cases root : location = []
  · subst root
    decide
  · cases back : location.reverse with
    | nil => simp [root] at back
    | cons name rest => simp [Path.isAbsolute, textChars root, back]

theorem textComponents {location : Location} (plain : ∀ name ∈ location, EntryName name) :
    components location.text = location.reverse := by
  cases location with
  | nil => decide
  | cons name directory =>
    have last := plain name List.mem_cons_self
    have ends : hasTrailingSlash (Location.text (name :: directory)) = false := by
      have final : ('/' :: name.toList).getLast? = name.toList.getLast? := by
        rw [List.getLast?_cons, List.getLast?_eq_some_getLast last.filled]
        rfl
      rw [hasTrailingSlash, textChars (by simp), List.reverse_cons, List.flatMap_append,
        List.flatMap_singleton, List.getLast?_append, final,
        List.getLast?_eq_some_getLast last.filled]
      simp only [Option.some_or, beq_eq_false_iff_ne, ne_eq, Option.some.injEq]
      intro slash
      exact last.noSlash (slash ▸ List.getLast_mem last.filled)
    rw [components, ends, textNames plain]
    simp

theorem textChecked {location : Location} (plain : ∀ name ∈ location, EntryName name) :
    checkPath location.text = .ok () := by
  by_cases root : location = []
  · subst root
    simp [checkPath, Location.text]
  · have noNul : location.text.toList.contains '\x00' = false := by
      rw [textChars root]
      simpa using fun name inside => (plain name inside).noNul
    have filled : location.text ≠ "" := by
      intro empty
      have absolute := textAbsolute location
      rw [empty] at absolute
      contradiction
    simp only [checkPath, noNul, filled, Bool.false_eq_true, if_false]

theorem Regular.textFound {fs : FileSystem} (regular : Regular fs) {location : Location}
    {content : Content} (held : fs.content? location = some content)
    (unlinked : ∀ target, content ≠ .link target) (short : isOverlong location = false)
    (follow : Bool) : fs.find follow location.text = .ok (.at location content) := by
  have plain := regular.named held
  have within : checkLength location.text = .ok () := by
    simp only [isOverlong, decide_eq_false_iff_not] at short
    exact if_neg short
  have led : walk fs follow maxLinks (fs.startOf location.text) location.reverse =
      .ok (.at location content) := by
    rw [startOf, textAbsolute, if_pos rfl]
    cases location with
    | nil => exact walkHere held
    | cons name directory =>
      have reached := @regular.walkedTo fs directory.reverse name [] content (by simpa using held)
        unlinked follow maxLinks
      simpa using reached
  simp only [find, textChecked plain, within, textComponents plain, led, bind, Except.bind]

theorem walkFound {fs : FileSystem} (regular : Regular fs) {links : Nat} {here location : Location}
    {parts : List String} {content : Content} (from' : fs.content? here = some .directory)
    (found : walk fs true links here parts = .ok (.at location content)) :
    fs.content? location = some content ∧ ∀ target, content ≠ .link target := by
  have unlinked : ∀ target, fs.content? here ≠ some (.link target) := by simp [from']
  clear from'
  replace found := walkFinds found
  generalize ends : Found.at location content = led at found
  induction found with
  | here held =>
    cases ends
    exact ⟨held, fun target same => unlinked target (same ▸ held)⟩
  | dot held _ ih => exact ih unlinked ends
  | dots held _ ih => exact ih (by simp [regular.tail held]) ends
  | free => cases ends
  | down _ _ _ next plain _ ih =>
    exact ih (fun target linked => plain target (Option.some.inj (next.symm.trans linked))) ends
  | link held _ _ _ _ _ ih =>
    refine ih (fun target => ?_) ends
    split
    · simp [content?]
    · simp [held]

theorem locatedParts {fs : FileSystem} {path : String} {location : Location}
    (found : fs.locate path = .ok location) :
    checkPath path = .ok () ∧ isOverlong location = false ∧ ∃ content,
      walk fs true maxLinks (fs.startOf path) (components path) = .ok (.at location content) := by
  simp only [locate, bind, Except.bind] at found
  split at found
  · contradiction
  rename_i checked
  split at found
  · contradiction
  split at found
  · contradiction
  rename_i pair reached
  obtain ⟨place, content⟩ := pair
  dsimp only at found
  split at found
  · contradiction
  rename_i short
  cases found
  exact ⟨checked, by simpa using short, content, existingAt.mp reached⟩

theorem Regular.located {fs : FileSystem} (regular : Regular fs) {path : String}
    {location : Location} (found : fs.locate path = .ok location) :
    ∃ content, fs.content? location = some content ∧ (∀ target, content ≠ .link target) ∧
      fs.status location.text = .ok content := by
  obtain ⟨_, short, content, reached⟩ := locatedParts found
  obtain ⟨held, unlinked⟩ := walkFound regular (regular.start path) reached
  refine ⟨content, held, unlinked, ?_⟩
  simp [status, regular.textFound held unlinked short, existing, Except.map]

end SourceModels.FileSystem
