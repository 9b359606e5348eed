import SourceModels.Proofs.Extraction.Fidelity
import SourceModels.Proofs.Selection.Listing
import Mathlib.Data.List.Induction

/-! Filenames identify files as long as no name in the tree holds a backslash: relative paths are
different and each leads from the root to its own entry. With a backslash, two files can go by one
relative path. -/
namespace SourceModels
open FileSystem

theorem spelledChars (first : String) (rest : List String) :
    ("/".intercalate (first :: rest)).toList =
      first.toList ++ rest.flatMap fun name => '/' :: name.toList := by
  induction rest generalizing first with
  | nil => simp
  | cons next more ih =>
    rw [String.intercalate_cons_cons, String.toList_append, String.toList_append, ih]
    simp

theorem relativeNames {names : List String} (plain : ∀ name ∈ names, EntryName name) :
    FileSystem.names ("/".intercalate names) = names := by
  cases names with
  | nil => decide
  | cons first rest =>
    have slashed := slashedParts plain
    have empty : Path.parts [] = [] := by decide
    rw [List.flatMap_cons, List.cons_append, ← spelledChars, ← List.nil_append ('/' :: _),
      Path.partsSlash, empty, List.nil_append] at slashed
    rw [FileSystem.names, slashed, List.map_map]
    simp

theorem relativeHead {name : List Char} (plain : '/' ∉ name) (filled : name ≠ [])
    (more : List Char) : (name ++ more).head? ≠ some '/' := by
  cases name with
  | nil => exact absurd rfl filled
  | cons c rest =>
    rintro ⟨⟩
    exact plain List.mem_cons_self

theorem spelledHead {names : List String} (plain : ∀ name ∈ names, EntryName name)
    (below : names ≠ []) : ("/".intercalate names).toList.head? ≠ some '/' := by
  cases names with
  | nil => exact absurd rfl below
  | cons first rest =>
    have entry := plain first List.mem_cons_self
    rw [spelledChars]
    exact relativeHead entry.noSlash entry.filled _

theorem joinedAtOnce {root : String} {names : List String}
    (plain : ∀ name ∈ names, EntryName name) (below : names ≠ []) :
    pathBelow root names = Path.join root ("/".intercalate names) := by
  induction names using List.reverseRecOn with
  | nil => exact absurd rfl below
  | append_singleton front last ih =>
    cases front with
    | nil => simp [pathBelow]
    | cons first rest =>
      have upper : ∀ name ∈ first :: rest, EntryName name :=
        fun name inside => plain name (List.mem_append_left _ inside)
      have entry := plain last (by simp)
      have above := ih upper (by simp)
      have open' := @pathEnds root _ upper (by simp)
      have filled : (pathBelow root (first :: rest)).toList ≠ [] := by
        have grows := @pathGrows root _ upper
        intro empty
        simp [byteLength, Utf8.ofTextChars, empty, Bytes.ofChars] at grows
      have more : (pathBelow root (first :: rest ++ [last])).toList =
          (pathBelow root (first :: rest)).toList ++ '/' :: last.toList := by
        have relative := relativeHead entry.noSlash entry.filled []
        rw [List.append_nil] at relative
        simp only [hasTrailingSlash, beq_eq_false_iff_ne] at open'
        rw [pathBelow, List.foldl_append, List.foldl_cons, List.foldl_nil, ← pathBelow, Path.join,
          String.toList_ofList, Path.joinedAs _ relative, Path.joint, if_neg (by simp [filled, open'])]
        simp
      rw [← String.toList_inj, more, above,
        String.intercalate_append_of_ne_nil (by simp) (by simp), String.intercalate_singleton]
      have whole : ("/".intercalate (first :: rest) ++ "/" ++ last).toList.head? ≠ some '/' := by
        have head := spelledHead plain below
        rwa [String.intercalate_append_of_ne_nil (by simp) (by simp), String.intercalate_singleton]
          at head
      simp only [Path.join, String.toList_ofList]
      rw [Path.joinedAs _ whole, Path.joinedAs _ (spelledHead upper (by simp))]
      simp

namespace Selector

structure FoundAt (fs : FileSystem) (path : String) (location : Location) (data : Bytes) : Prop where
  located : fs.locate path = .ok location
  held : fs.content? location = some (.file data)
  read : isLongPath path = false → fs.readBytes path = .ok data

/-- A candidate comes from an entry that is found when its relative path is followed from the root,
and it stands for the file which that leads to. -/
structure Stands (selector : Selector) (fs : FileSystem) (top : Location) (c : Candidate)
    (data : Bytes) : Prop where
  entry : ∃ names content,
    walk fs false maxLinks (fs.startOf (Path.join selector.root c.relativePath))
        (components (Path.join selector.root c.relativePath)) =
      .ok (.at (names.reverse ++ top) content) ∧
    (selector.inspect ⟨Path.join selector.root c.relativePath, names, .ofContent content⟩ {} fs).1 =
      .candidate c
  file : ∃ location, FoundAt fs (Path.join selector.root c.relativePath) location data ∧
    c.location = location.text ∧ fs.readBytes c.location = .ok data
  size : c.size = data.length

variable {selector : Selector} {fs : FileSystem} {top : Location}

theorem judgedOk {spelled : List String → String} {e : Met} {c : Candidate}
    (chosen : selector.judge fs spelled e = .ok (some c)) :
    e.2 ≠ .directory ∧ c.relativePath = spelled e.1 ∧
      resolve fs (pathBelow selector.root e.1) = .ok c.location ∧
      ∃ data, fs.content? (FileSystem.names c.location).reverse = some (.file data) ∧
        c.size = data.length := by
  unfold judge at chosen
  dsimp only at chosen
  split at chosen
  · split at chosen <;> simp at chosen
  rename_i other
  split at chosen
  · contradiction
  rename_i target found
  split at chosen
  · rename_i data held
    split at chosen
    · simp at chosen
    · simp only [Except.ok.injEq, Option.map_eq_some_iff] at chosen
      obtain ⟨language, _, rfl⟩ := chosen
      exact ⟨other, rfl, found, data, held, rfl⟩
  · split at chosen <;> simp at chosen
  · simp at chosen

theorem entryWalked (rooted : Rooted fs selector.root top) {names : List String} {content : Content}
    (below : names ≠ []) (held : fs.content? (names.reverse ++ top) = some content) :
    walk fs false maxLinks (fs.startOf (pathBelow selector.root names))
      (components (pathBelow selector.root names)) = .ok (.at (names.reverse ++ top) content) := by
  obtain ⟨fewer, on⟩ := rooted.walked (rooted.named held) below
  obtain ⟨front, name, rfl⟩ := List.eq_nil_or_concat' names |>.resolve_left below
  rw [List.reverse_append, List.reverse_singleton, List.singleton_append, List.cons_append]
    at held ⊢
  have directory := rooted.regular.above held
  have entry := rooted.regular.named held name List.mem_cons_self
  rw [on, rooted.regular.walkedDown directory, walkEntry directory entry.named entry.short held]

theorem rootUnchosen (rooted : Rooted fs selector.root top) {spelled : List String → String}
    {content : Content} {c : Candidate} :
    selector.judge fs spelled ([], content) ≠ .ok (some c) := by
  intro chosen
  obtain ⟨_, _, found, data, held, _⟩ := judgedOk chosen
  obtain ⟨location, _, located, _, spelt, _⟩ := resolved rooted.regular found
  obtain ⟨_, _, _, reached⟩ := locatedParts located
  have same := rooted.parts.2.2.symm.trans reached
  simp only [Except.ok.injEq, Found.at.injEq] at same
  rw [spelt, ← same.1, rooted.held] at held
  simp at held

theorem judgedStands (links : selector.resolver = resolve) (rooted : Rooted fs selector.root top)
    {e : Met} (held : fs.content? (e.1.reverse ++ top) = some e.2) (below : e.1 ≠ [])
    (plain : ∀ name ∈ e.1, '\\' ∉ name.toList) {c : Candidate}
    (chosen : selector.judge fs spell e = .ok (some c)) :
    c.relativePath = "/".intercalate e.1 ∧ ∃ data, Stands selector fs top c data := by
  obtain ⟨other, relative, found, data, file, size⟩ := judgedOk chosen
  obtain ⟨location, content, located, text, spelt, there, _, status⟩ :=
    resolved rooted.regular found
  rw [spelledPlainly plain] at relative
  rw [spelt, there] at file
  cases file
  have path : pathBelow selector.root e.1 = Path.join selector.root c.relativePath := by
    rw [relative]
    exact joinedAtOnce (rooted.named held) below
  rw [path] at located found
  refine ⟨relative, data, ⟨e.1, e.2, ?_, ?_⟩, ⟨location, ⟨located, there, ?_⟩, text, ?_⟩, size⟩
  · rw [← path]
    exact entryWalked rooted below held
  · rw [← path, inspectJudged links rooted.regular other, chosen]
    rfl
  · intro short
    obtain ⟨checked, _, reached, led⟩ := locatedParts located
    have same := (walkFound rooted.regular (rooted.regular.start _) led).1
    rw [there] at same
    cases same
    have within : checkLength (Path.join selector.root c.relativePath) = .ok () :=
      if_neg (of_decide_eq_false short)
    have whole : fs.find true (Path.join selector.root c.relativePath) =
        .ok (.at location (.file data)) := by
      simp only [find, checked, within, led, bind, Except.bind]
    exact bytesRead whole
  · simp [readBytes, status, bind, Except.bind]

theorem judgedFrom (selector : Selector) (fs : FileSystem) (spelled : List String → String)
    (listing : List Met) : ∃ pairs : List (Met × Candidate),
      (pairs.map Prod.fst).Sublist listing ∧
      pairs.map Prod.snd = (selector.judged fs spelled listing).filterMap Except.toOption ∧
      ∀ p ∈ pairs, selector.judge fs spelled p.1 = .ok (some p.2) := by
  induction listing with
  | nil => exact ⟨[], .slnil, rfl, by simp⟩
  | cons e rest ih =>
    obtain ⟨pairs, listed, chosen, judgements⟩ := ih
    rw [judged] at chosen
    rw [judged, List.foldr_cons, judgeThen]
    cases found : selector.judge fs spelled e with
    | error fault => exact ⟨[], List.nil_sublist _, rfl, by simp⟩
    | ok verdict =>
      cases verdict with
      | none => exact ⟨pairs, listed.cons e, chosen, judgements⟩
      | some c =>
        refine ⟨(e, c) :: pairs, listed.cons_cons e, by simp [chosen, Except.toOption], ?_⟩
        rintro p inside
        rcases List.mem_cons.mp inside with rfl | later
        · exact found
        · exact judgements p later

theorem metFromOrdered (rooted : Rooted fs selector.root top) :
    (metFrom fs selector.root top).Pairwise fun a b => b.1 ≠ [] → Ahead a.1 b.1 := by
  have ordered : (metBelow fs selector.root top).Pairwise fun a b => b.1 ≠ [] → Ahead a.1 b.1 := by
    refine rooted.metBelowOrdered.imp ?_
    exact fun ahead _ => ahead
  unfold metFrom
  split
  · refine List.pairwise_cons.mpr ⟨?_, ordered⟩
    rintro ⟨names, content⟩ _ below
    obtain ⟨first, rest, rfl⟩ := List.exists_cons_of_ne_nil below
    exact .deeper [] first rest
  · exact ordered

theorem metFromHeld (rooted : Rooted fs selector.root top) {e : Met} (below : e.1 ≠ [])
    (met : e ∈ metFrom fs selector.root top) :
    fs.content? (e.1.reverse ++ top) = some e.2 := by
  unfold metFrom at met
  split at met
  · rcases List.mem_cons.mp met with rfl | inside
    · exact absurd rfl below
    · exact (rooted.metBelowMeans.mp inside).1
  · exact (rooted.metBelowMeans.mp met).1

theorem handedListing (links : selector.resolver = resolve)
    (rooted : Rooted fs selector.root top) : ∃ listing : List Met,
      listing.Sublist (metFrom fs selector.root top) ∧
      selector.handed fs (Walk.start fs selector.root) = selector.judged fs spell listing := by
  by_cases hidden : fs.linkStatus selector.root = .ok .directory ∧
      Path.fileName? selector.root = some Walk.gitDirectory
  · refine ⟨[], List.nil_sublist _, ?_⟩
    simp only [Walk.start, hidden.1, EntryKind.ofContent, if_pos hidden.2]
    rfl
  · exact ⟨_, List.Sublist.refl _,
      handedFrom links rooted fun straight named => hidden ⟨straight, named⟩⟩

theorem candidatesStand (links : selector.resolver = resolve)
    (rooted : Rooted fs selector.root top)
    (plain : ∀ e ∈ fs.entries, ∀ names ∈ namesBelow? top e.1, ∀ name ∈ names,
      '\\' ∉ name.toList)
    {chosen : List Candidate} (among : chosen.Sublist
      ((selector.handed fs (Walk.start fs selector.root)).filterMap Except.toOption)) :
    (chosen.map (·.relativePath)).Nodup ∧
      ∀ c ∈ chosen, ∃ data, Stands selector fs top c data := by
  obtain ⟨listing, met, same⟩ := handedListing links rooted
  obtain ⟨all, listed, candidates, judgements⟩ := judgedFrom selector fs spell listing
  rw [same, ← candidates] at among
  obtain ⟨pairs, fewer, rfl⟩ := List.sublist_map_iff.mp among
  have entries := ((fewer.map Prod.fst).trans listed).trans met
  have stands : ∀ p ∈ pairs, p.1.1 ≠ [] ∧ (∀ name ∈ p.1.1, EntryName name) ∧
      p.2.relativePath = "/".intercalate p.1.1 ∧ ∃ data, Stands selector fs top p.2 data := by
    intro p inside
    have judged := judgements p (fewer.subset inside)
    have below : p.1.1 ≠ [] := by
      intro none
      have root : p.1 = ([], p.1.2) := Prod.ext none rfl
      rw [root] at judged
      exact rootUnchosen rooted judged
    have held := metFromHeld rooted below (entries.subset (List.mem_map_of_mem inside))
    have clean : ∀ name ∈ p.1.1, '\\' ∉ name.toList := by
      obtain ⟨front, last, split⟩ := List.eq_nil_or_concat' p.1.1 |>.resolve_left below
      have entry : (p.1.1.reverse ++ top, p.1.2) ∈ fs.entries := by
        rw [split, List.reverse_append, List.reverse_singleton, List.singleton_append] at held ⊢
        exact heldEntry held
      exact plain _ entry p.1.1 (namesBelowMeans.mpr ⟨below, rfl⟩)
    exact ⟨below, rooted.named held, judgedStands links rooted held below clean judged⟩
  refine ⟨?_, ?_⟩
  · rw [List.map_map, List.Nodup, List.pairwise_map]
    have ordered := List.pairwise_map.mp ((metFromOrdered rooted).sublist entries)
    refine ordered.imp_of_mem ?_
    intro a b first second ahead alike
    obtain ⟨_, plain, path, _⟩ := stands a first
    obtain ⟨below, plain', path', _⟩ := stands b second
    simp only [Function.comp_apply, path, path'] at alike
    have names := congrArg FileSystem.names alike
    rw [relativeNames plain, relativeNames plain'] at names
    exact (ahead below).different names
  · intro c inside
    obtain ⟨p, listed, rfl⟩ := List.mem_map.mp inside
    exact (stands p listed).2.2.2

def Item.candidate? : Item → Option Candidate
  | .candidate c => some c
  | _ => none

theorem callsCandidates (quiet : selector.detector.Quiet) (count : Nat) (selection : Selection) :
    ((selector.calls count selection fs).filterMap Item.candidate?).Sublist
      ((selector.items fs selection.walk selection.counts).filterMap Except.toOption) := by
  have same : Item.candidate? ∘ Item.of = Except.toOption := by
    funext item
    cases item <;> rfl
  have none : (List.replicate count Item.done).filterMap Item.candidate? = [] := by
    simp [Item.candidate?]
  rw [callsItems quiet (Nat.le_refl count)]
  refine ((List.take_sublist ..).filterMap _).trans ?_
  rw [List.filterMap_append, none, List.append_nil, List.filterMap_map, same]

theorem yieldsItems (quiet : selector.detector.Quiet) {selection : Selection}
    {candidates : List Candidate} (yields : selector.Yields selection fs candidates) :
    selector.items fs selection.walk selection.counts = candidates.map .ok := by
  induction yields with
  | @done selection last fs after ends =>
    cases selector.nextHeads quiet fs selection.walk selection.counts with
    | done _ _ none => exact none
    | failed ends' _ _ => simp [ends] at ends'
    | candidate first _ _ => simp [ends] at first
  | @candidate selection later fs after c others first _ ih =>
    cases selector.nextHeads quiet fs selection.walk selection.counts with
    | done ends _ _ => simp [first] at ends
    | failed ends _ _ => simp [first] at ends
    | candidate first' more _ =>
      rw [first] at first'
      cases first'
      rw [more, ih, List.map_cons]

end Selector

namespace Extractor

theorem Parses.read {x : Extractor} {fs : FileSystem} {earlier : List ParseRequest}
    {files : List ParsedFile} (parses : x.Parses fs earlier files) :
    ∀ file ∈ files, fs.readBytes file.candidate.location = .ok file.content := by
  induction parses with
  | nil => simp
  | cons read _ _ ih =>
    intro file inside
    rcases List.mem_cons.mp inside with rfl | later
    · exact read
    · exact ih file later

theorem storedModel {x : Extractor} {repository destination path : String} {draft : Draft}
    {stamp : Stamp} {fs after : FileSystem} {size : Nat}
    (stored : x.store repository destination draft stamp fs = (after, .ok (.written path size))) :
    ∃ model, draft.finalize repository stamp = .ok model ∧
      x.writer.write fs model destination stamp.token = (after, .ok ()) := by
  have known := x.draftStored repository destination draft stamp fs
  rw [stored] at known
  cases known with
  | written filled finished done => exact ⟨_, finished, done⟩

end Extractor

namespace Selector

variable {selector : Selector} {fs : FileSystem} {top : Location}

structure Identifying (selector : Selector) (fs : FileSystem) (top : Location) : Prop where
  distinct : ∀ selection count, selector.select fs = .ok selection →
    (((selector.calls count selection fs).filterMap Item.candidate?).map (·.relativePath)).Nodup
  stands : ∀ selection count, selector.select fs = .ok selection →
    ∀ c ∈ (selector.calls count selection fs).filterMap Item.candidate?,
      ∃ data, Stands selector fs top c data
  models : ∀ (x : Extractor) (repository destination path : String) (stamp : Stamp)
    (after : FileSystem) (size : Nat) (requests : List ParseRequest),
    x.selector repository = selector →
    x.extractTo repository destination stamp fs = ⟨.ok (.written path size), after, requests⟩ →
    ∃ model, x.writer.write fs model destination stamp.token = (after, .ok ()) ∧
      model.filenames.Nodup ∧ ∀ index filename, model.filenames[index]? = some filename →
        ∃ location data, FoundAt fs (Path.join selector.root filename) location data ∧
          model.sources.get? index = some data

theorem filenamesIdentify (links : selector.resolver = resolve) (quiet : selector.detector.Quiet)
    (rooted : Rooted fs selector.root top)
    (plain : ∀ e ∈ fs.entries, ∀ names ∈ namesBelow? top e.1, ∀ name ∈ names,
      '\\' ∉ name.toList) : Identifying selector fs top := by
  have walked : ∀ selection count, selector.select fs = .ok selection →
      ((selector.calls count selection fs).filterMap Item.candidate?).Sublist
        ((selector.handed fs (Walk.start fs selector.root)).filterMap Except.toOption) := by
    intro selection count begun
    rw [begins rooted] at begun
    cases begun
    exact callsCandidates quiet count _
  refine ⟨?_, ?_, ?_⟩
  · intro selection count begun
    exact (candidatesStand links rooted plain (walked selection count begun)).1
  · intro selection count begun
    exact (candidatesStand links rooted plain (walked selection count begun)).2
  · rintro x repository destination path stamp after size requests rfl run
    obtain ⟨draft, gathered, stored⟩ := Extractor.writtenParts quiet run
    obtain ⟨files, ⟨selection, begun, yields⟩, parses, holds, _⟩ :=
      Extractor.gatherCaptures quiet gathered
    obtain ⟨model, finished, written⟩ := Extractor.storedModel stored
    obtain ⟨_, _, rfl⟩ := Draft.finalizeDone finished
    have items := yieldsItems quiet yields
    rw [begins rooted] at begun
    cases begun
    have chosen : (files.map (·.candidate)).Sublist
        (((x.selector repository).handed fs
          (Walk.start fs (x.selector repository).root)).filterMap Except.toOption) := by
      rw [handed, items, List.filterMap_map]
      simp [Function.comp_def, Except.toOption]
    obtain ⟨distinct, stands⟩ := candidatesStand links rooted plain chosen
    refine ⟨_, written, ?_, ?_⟩
    · simpa [holds.filenames, Function.comp_def] using distinct
    · intro index filename named
      dsimp only at named ⊢
      rw [holds.filenames, List.getElem?_map, Option.map_eq_some_iff] at named
      obtain ⟨file, placed, rfl⟩ := named
      have inside := List.mem_of_getElem? placed
      obtain ⟨data, stand⟩ := stands file.candidate (List.mem_map_of_mem inside)
      obtain ⟨location, found, _, read⟩ := stand.file
      have source := holds.sources.get index
      rw [List.getElem?_map, placed] at source
      have same : file.content = data := by
        have contents := parses.read file inside
        rw [read] at contents
        exact (Except.ok.inj contents).symm
      exact ⟨location, data, found, same ▸ source⟩

theorem nestedLinkIdentified :
    Identifying (Extractor.plainExtractor.selector "r") nestedLink ["r"] ∧
    (Extractor.plainExtractor.extractTo "r" "m" ⟨.ofEpoch 0 0, .zero, "0"⟩
      nestedLink).result.toOption = some (.written "m" 1) :=
  ⟨@filenamesIdentify (Extractor.plainExtractor.selector "r") _ _ rfl (fun _ _ _ => rfl)
    ⟨by decide, rootFound rfl rfl true⟩ (by decide), by decide +kernel⟩

def backslashed : FileSystem where
  entries := [(["r"], .directory), (["a", "r"], .directory), (["b.py", "a", "r"], .file [0x79]),
    (["a\\b.py", "r"], .file [0x78])]
  current := []

theorem backslashedMet (rooted : Rooted backslashed "r" ["r"]) :
    metBelow backslashed "r" ["r"] =
      [([], .directory), (["a"], .directory), (["a", "b.py"], .file [0x79]),
        (["a\\b.py"], .file [0x78])] := by
  have outer : backslashed.sortedChildren ["r"] = [("a", .directory), ("a\\b.py", .file [0x78])] :=
    List.mergeSort_of_pairwise (by decide)
  have inner : backslashed.sortedChildren ["a", "r"] = [("b.py", .file [0x79])] :=
    List.mergeSort_of_pairwise (by decide)
  have above : isOpen backslashed (pathBelow "r" []) = true := by decide +kernel
  have below : isOpen backslashed (pathBelow "r" ["a"]) = true := by decide +kernel
  have within : ∀ levels, metWithin backslashed "r" ["r"] (levels + 2) [] .directory =
      [([], .directory), (["a"], .directory), (["a", "b.py"], .file [0x79]),
        (["a\\b.py"], .file [0x78])] := by
    intro levels
    simp [metWithin, metInside, outer, inner, metAt, above, below, Walk.gitDirectory]
  exact rooted.metWithinAll.symm.trans (within 4094)

theorem backslashedTwice :
    ∃ selection, (plainSelector "r" "python").select backslashed = .ok selection ∧
      (plainSelector "r" "python").calls 3 selection backslashed =
        [.candidate ⟨"a/b.py", "/r/a/b.py", 1, "python"⟩,
          .candidate ⟨"a/b.py", "/r/a\\b.py", 1, "python"⟩, .done] := by
  have rooted : Rooted backslashed "r" ["r"] := ⟨by decide, rootFound rfl rfl true⟩
  refine ⟨_, @begins (plainSelector "r" "python") _ _ rooted, ?_⟩
  have straight : backslashed.linkStatus "r" = .ok .directory := by
    have found := @rootFound backslashed rfl rfl false
    simp [linkStatus, found, existing, Except.map]
  have items : (plainSelector "r" "python").items backslashed (Walk.start backslashed "r") {} =
      (plainSelector "r" "python").judged backslashed spell
        [([], .directory), (["a"], .directory), (["a", "b.py"], .file [0x79]),
          (["a\\b.py"], .file [0x78])] := by
    refine (@handedFrom (plainSelector "r" "python") _ _ rfl rooted fun _ => by decide).trans ?_
    simp only [plainSelector, metFrom, straight, backslashedMet rooted]
  have root : (plainSelector "r" "python").root = "r" := rfl
  rw [callsItems (fun _ _ _ => rfl) (Nat.le_refl 3), root, items]
  decide +kernel

end Selector

end SourceModels
