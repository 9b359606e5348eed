import SourceModels.Toml.Text
import SourceModels.Toml.Writer

/-! A string is read back from any of the ways to write it. -/
namespace SourceModels.Toml

inductive Spelling (c : Char) : List Char → Prop where
  | plain (visible : isPlain c = true) (other : c ≠ '"' ∧ c ≠ '\\') : Spelling c [c]
  | escape {form : List Char} (known : ∀ rest, escape? (form ++ rest) = some (c, rest))
      (unfolded : ∀ rest, newline? (skipBlanks (form ++ rest)) = none) : Spelling c ('\\' :: form)

theorem controlScalar (n : Fin 128) :
    scalar? ['0', '0', upperHex (n / 16), upperHex (n % 16)] = some (Char.ofNat n) := by
  revert n
  decide +kernel

theorem numberEscape {c : Char} (low : c.toNat < 128) (rest : List Char) :
    escape? (['u', '0', '0', upperHex (c.toNat / 16), upperHex (c.toNat % 16)] ++ rest) =
      some (c, rest) := by
  have known := controlScalar ⟨c.toNat, low⟩
  rw [Char.ofNat_toNat] at known
  simp only [List.cons_append, List.nil_append, escape?, List.length_cons]
  rw [if_pos (by omega)]
  exact congrArg (Option.map fun c => (c, rest)) known

theorem visiblePlain {c : Char} (high : ¬ c.toNat < 32) (other : c ≠ '\x7f') : isPlain c = true := by
  have above : ' ' ≤ c := by
    rw [Char.le_def, UInt32.le_iff_toNat_le]
    exact Nat.not_lt.mp high
  simp [isPlain, above, other]

theorem escapeSpelling {lines : Bool} {c : Char} (other : c ≠ '"') :
    lines = true ∧ c = '\n' ∧ escapeChar lines c = ['\n'] ∨ Spelling c (escapeChar lines c) := by
  unfold escapeChar
  split
  · subst c
    exact .inr (.escape (fun _ => rfl) fun _ => rfl)
  rename_i back
  split
  · subst c
    exact .inr (.escape (fun _ => rfl) fun _ => rfl)
  split
  · subst c
    cases lines with
    | true => exact .inl ⟨rfl, rfl, rfl⟩
    | false => exact .inr (.escape (fun _ => rfl) fun _ => rfl)
  split
  · subst c
    exact .inr (.escape (fun _ => rfl) fun _ => rfl)
  split
  · subst c
    exact .inr (.escape (fun _ => rfl) fun _ => rfl)
  split
  · subst c
    exact .inr (.escape (fun _ => rfl) fun _ => rfl)
  right
  split
  · rename_i control
    have low : c.toNat < 128 := by
      rcases control with low | rfl
      · omega
      · decide
    exact .escape (numberEscape low) fun _ => rfl
  · rename_i visible
    obtain ⟨high, shown⟩ := not_or.mp visible
    exact .plain (visiblePlain high shown) ⟨other, back⟩

inductive Line : List Char → List Char → Prop where
  | nil : Line [] []
  | next {c : Char} {form body text : List Char} (spells : Spelling c form)
      (more : Line body text) : Line (form ++ body) (c :: text)

theorem quoteSpelling : Spelling '"' ['\\', '"'] := .escape (fun _ => rfl) fun _ => rfl

theorem escapedLine (text : List Char) (run : Nat) : Line (escaped false run text) text := by
  induction text generalizing run with
  | nil => exact .nil
  | cons c rest ih =>
    rw [escaped]
    split
    · subst c
      rw [if_neg (by simp)]
      exact .next quoteSpelling (ih 0)
    · rename_i other
      rcases @escapeSpelling false c other with ⟨lines, _⟩ | spells
      · contradiction
      · exact .next spells (ih 0)

theorem basicRead {body text rest : List Char} (line : Line body text) {fuel : Nat}
    (enough : body.length < fuel) (seen : List Char) :
    basicString fuel seen (body ++ '"' :: rest) =
      some (String.ofList (seen.reverse ++ text), rest) := by
  induction line generalizing fuel seen with
  | nil =>
    obtain ⟨fuel, rfl⟩ := Nat.exists_eq_succ_of_ne_zero (Nat.ne_zero_of_lt enough)
    simp [basicString]
  | @next c form body text spells more ih =>
    obtain ⟨fuel, rfl⟩ := Nat.exists_eq_succ_of_ne_zero (Nat.ne_zero_of_lt enough)
    have shorter : body.length < fuel := by
      cases spells <;> simp only [List.length_append, List.length_cons] at enough <;> omega
    have later := ih shorter (c :: seen)
    rw [List.reverse_cons, List.append_assoc, List.singleton_append] at later
    rw [← later, List.append_assoc]
    cases spells with
    | plain visible other => simp [basicString, visible, other]
    | escape known unfolded => simp [basicString, known]

theorem literalRead {text rest : List Char} (plain : ∀ c ∈ text, isPlain c = true ∧ c ≠ '\'')
    (seen : List Char) : literalString seen (text ++ '\'' :: rest) =
      some (String.ofList (seen.reverse ++ text), rest) := by
  induction text generalizing seen with
  | nil => simp [literalString]
  | cons c more ih =>
    obtain ⟨first, others⟩ := List.forall_mem_cons.mp plain
    have later := ih others (c :: seen)
    rw [List.reverse_cons, List.append_assoc, List.singleton_append] at later
    simp [literalString, first, later]

inductive Body (quote : Char) (escapes : Bool) : (run : Nat) → List Char → List Char → Prop where
  | nil {run : Nat} : Body quote escapes run [] []
  | quote {run : Nat} {body text : List Char} (few : run < 2)
      (more : Body quote escapes (run + 1) body text) :
      Body quote escapes run (quote :: body) (quote :: text)
  | newline {run : Nat} {body text : List Char} (more : Body quote escapes 0 body text) :
      Body quote escapes run ('\n' :: body) ('\n' :: text)
  | plain {run : Nat} {c : Char} {body text : List Char} (visible : isPlain c = true)
      (other : c ≠ quote) (unescaped : escapes = true → c ≠ '\\')
      (more : Body quote escapes 0 body text) : Body quote escapes run (c :: body) (c :: text)
  | escape {run : Nat} {c : Char} {form body text : List Char} (escaping : escapes = true)
      (known : ∀ rest, escape? (form ++ rest) = some (c, rest))
      (unfolded : ∀ rest, newline? (skipBlanks (form ++ rest)) = none)
      (more : Body quote escapes 0 body text) :
      Body quote escapes run ('\\' :: (form ++ body)) (c :: text)

theorem Spelling.body {c : Char} {form body text : List Char} {run : Nat}
    (spells : Spelling c form) (more : Body '"' true 0 body text) :
    Body '"' true run (form ++ body) (c :: text) := by
  cases spells with
  | plain visible other => exact .plain visible other.1 (fun _ => other.2) more
  | escape known unfolded => exact .escape rfl known unfolded more

theorem escapedBody (text : List Char) (run : Nat) :
    Body '"' true run (escaped true run text) text := by
  induction text generalizing run with
  | nil => exact .nil
  | cons c rest ih =>
    rw [escaped]
    split
    · subst c
      split
      · rename_i few
        exact .quote few.2 (ih _)
      · exact quoteSpelling.body (ih 0)
    · rename_i other
      rcases @escapeSpelling true c other with ⟨_, rfl, same⟩ | spells
      · rw [same]
        exact .newline (ih 0)
      · exact spells.body (ih 0)

theorem longestGrows (quote : Char) (text : List Char) (current longest : Nat) :
    longest ≤ longestRun quote current longest text := by
  induction text generalizing current longest with
  | nil => exact Nat.le_refl _
  | cons c rest ih =>
    rw [longestRun]
    split
    · exact Nat.le_trans (Nat.le_max_left ..) (ih ..)
    · exact ih ..

theorem literalBody {quote : Char} {text : List Char}
    (plain : ∀ c ∈ text, c = '\n' ∨ isPlain c = true) {run longest : Nat}
    (few : longestRun quote run longest text ≤ 2) : Body quote false run text text := by
  induction text generalizing run longest with
  | nil => exact .nil
  | cons c rest ih =>
    obtain ⟨first, others⟩ := List.forall_mem_cons.mp plain
    rw [longestRun] at few
    split at few
    · subst c
      have grown := longestGrows quote rest (run + 1) (max longest (run + 1))
      exact .quote (by omega) (ih others few)
    · rename_i other
      rcases first with rfl | visible
      · exact .newline (ih others few)
      · exact .plain visible other nofun (ih others few)

section
variable {quote : Char} {escapes : Bool} {body text rest : List Char}

theorem Body.quotes {run : Nat} (body' : Body quote escapes run body text)
    (mark : quote = '"' ∨ quote = '\'') (few : run ≤ 2) :
    ∃ count more, run + count ≤ 2 ∧ body = List.replicate count quote ++ more ∧
      (more = [] ∧ text = body ∨ ∃ c others, more = c :: others ∧ c ≠ quote) := by
  have other : '\n' ≠ quote ∧ '\\' ≠ quote := by
    rcases mark with rfl | rfl <;> decide
  induction body' with
  | nil => exact ⟨0, [], few, rfl, .inl ⟨rfl, rfl⟩⟩
  | quote less more ih =>
    obtain ⟨count, left, within, rfl, ends⟩ := ih less
    refine ⟨count + 1, left, by omega, rfl, ?_⟩
    rcases ends with ⟨rfl, same⟩ | goesOn
    · exact .inl ⟨rfl, by rw [same]⟩
    · exact .inr goesOn
  | newline => exact ⟨0, _, few, rfl, .inr ⟨_, _, rfl, other.1⟩⟩
  | plain _ different => exact ⟨0, _, few, rfl, .inr ⟨_, _, rfl, different⟩⟩
  | escape => exact ⟨0, _, few, rfl, .inr ⟨_, _, rfl, other.2⟩⟩

theorem runTaken (ends : rest.head? ≠ some quote) (count : Nat) :
    (List.replicate count quote ++ rest).takeWhile (· = quote) = List.replicate count quote := by
  rw [List.takeWhile_append_of_pos (by simp)]
  cases rest with
  | nil => simp
  | cons c others =>
    have other : c ≠ quote := fun same => ends (congrArg some same)
    simp [other]

theorem closes {count : Nat} (few : count ≤ 2) (ends : rest.head? ≠ some quote) :
    closing? quote (List.replicate count quote ++ quote :: quote :: quote :: rest) =
      some (List.replicate count quote, rest) := by
  have whole : List.replicate count quote ++ quote :: quote :: quote :: rest =
      List.replicate (count + 3) quote ++ rest := by
    rw [List.append_cons, List.append_cons, List.append_cons]
    simp only [← List.replicate_succ']
  have drop : (List.replicate (count + 3) quote ++ rest).drop (count + 3) = rest :=
    List.drop_left' List.length_replicate
  have kept : min (count + 3 - 3) 2 = count := by omega
  simp only [whole, closing?, runTaken ends, List.length_replicate]
  rw [if_pos (Nat.le_add_left 3 count), kept, drop]

theorem staysOpen {count : Nat} (few : count ≤ 2) (ends : rest.head? ≠ some quote) :
    closing? quote (List.replicate count quote ++ rest) = none := by
  simp only [closing?, runTaken ends, List.length_replicate]
  exact if_neg (by omega)

theorem Body.closing {run : Nat} (body' : Body quote escapes run body text)
    (mark : quote = '"' ∨ quote = '\'') (few : run ≤ 2) (ends : rest.head? ≠ some quote) :
    closing? quote (body ++ quote :: quote :: quote :: rest) = some (text, rest) ∨
      body ≠ [] ∧ closing? quote (body ++ quote :: quote :: quote :: rest) = none := by
  obtain ⟨count, more, within, rfl, ⟨rfl, same⟩ | ⟨c, others, rfl, other⟩⟩ := body'.quotes mark few
  · rw [List.append_nil] at same ⊢
    rw [same]
    exact .inl (closes (by omega) ends)
  · right
    refine ⟨by simp, ?_⟩
    rw [List.append_assoc]
    exact staysOpen (by omega) (by simp [other])

theorem linesDone {fuel : Nat} {seen left : List Char} (done : closing? quote left = some (text, rest)) :
    linesString quote escapes (fuel + 1) seen left =
      some (String.ofList (seen.reverse ++ text), rest) := by
  simp only [linesString, done]

theorem newlineNone {c : Char} (other : c ≠ '\n' ∧ c ≠ '\r') (rest : List Char) :
    newline? (c :: rest) = none := by
  unfold newline?
  split
  · rename_i same
    exact absurd (List.cons.inj same).1 other.1
  · rename_i same
    exact absurd (List.cons.inj same).1 other.2
  · rfl

theorem newlinePlain {c : Char} (visible : isPlain c = true) (rest : List Char) :
    newline? (c :: rest) = none := by
  refine newlineNone ⟨?_, ?_⟩ rest <;> rintro rfl <;> contradiction

theorem linesPlain {fuel : Nat} {seen left : List Char} {c : Char} (visible : isPlain c = true)
    (unescaped : escapes = true → c ≠ '\\') (goesOn : closing? quote (c :: left) = none) :
    linesString quote escapes (fuel + 1) seen (c :: left) =
      linesString quote escapes fuel (c :: seen) left := by
  have other : ¬ (escapes = true ∧ c = '\\') := fun both => unescaped both.1 both.2
  simp only [linesString, goesOn, newlinePlain visible, if_neg other, if_pos visible]

theorem linesEscape {fuel : Nat} {seen left form : List Char} {c : Char}
    (known : ∀ rest, escape? (form ++ rest) = some (c, rest))
    (unfolded : ∀ rest, newline? (skipBlanks (form ++ rest)) = none)
    (goesOn : closing? quote ('\\' :: (form ++ left)) = none) :
    linesString quote true (fuel + 1) seen ('\\' :: (form ++ left)) =
      linesString quote true fuel (c :: seen) left := by
  have whole : newline? ('\\' :: (form ++ left)) = none := rfl
  simp [linesString, goesOn, whole, unfolded, known]

theorem linesRead {run : Nat} (body' : Body quote escapes run body text)
    (mark : quote = '"' ∨ quote = '\'') (few : run ≤ 2) (ends : rest.head? ≠ some quote)
    {fuel : Nat} (enough : body.length < fuel) (seen : List Char) :
    linesString quote escapes fuel seen (body ++ quote :: quote :: quote :: rest) =
      some (String.ofList (seen.reverse ++ text), rest) := by
  have marks : isPlain quote = true ∧ quote ≠ '\\' := by
    rcases mark with rfl | rfl <;> decide
  induction fuel generalizing run body text seen with
  | zero => contradiction
  | succ fuel ih =>
    have onward : ∀ {run : Nat} {c : Char} {body text : List Char},
        Body quote escapes run body text → run ≤ 2 → body.length < fuel →
        linesString quote escapes fuel (c :: seen) (body ++ quote :: quote :: quote :: rest) =
          some (String.ofList (seen.reverse ++ c :: text), rest) := by
      intro run c body text more few enough
      have later := ih more few enough (c :: seen)
      rwa [List.reverse_cons, List.append_assoc, List.singleton_append] at later
    rcases body'.closing mark few ends with done | ⟨filled, goesOn⟩
    · exact linesDone done
    cases body' with
    | nil => contradiction
    | quote less more =>
      rw [← onward more less (Nat.lt_of_succ_lt_succ enough)]
      exact linesPlain marks.1 (fun _ => marks.2) goesOn
    | newline more =>
      rw [← onward more (Nat.zero_le 2) (Nat.lt_of_succ_lt_succ enough)]
      rw [List.cons_append] at goesOn ⊢
      simp only [linesString, goesOn, newline?]
    | plain visible other unescaped more =>
      rw [← onward more (Nat.zero_le 2) (Nat.lt_of_succ_lt_succ enough)]
      exact linesPlain visible unescaped goesOn
    | escape escaping known unfolded more =>
      rw [List.length_cons, List.length_append] at enough
      rw [← onward more (Nat.zero_le 2) (by omega)]
      subst escaping
      rw [List.cons_append, List.append_assoc] at goesOn ⊢
      exact linesEscape known unfolded goesOn

theorem Body.first {run : Nat} (body' : Body quote escapes run body text)
    (mark : quote = '"' ∨ quote = '\'') (oneLine : '\n' ∉ text) (rest : List Char) :
    newline? (body ++ quote :: rest) = none := by
  have visible : isPlain quote = true := by
    rcases mark with rfl | rfl <;> rfl
  cases body' with
  | nil => exact newlinePlain visible _
  | quote => exact newlinePlain visible _
  | newline => simp at oneLine
  | plain visible => exact newlinePlain visible _
  | escape => exact newlinePlain rfl _

end

def opening (text : List Char) : List Char := if text.contains '\n' then ['\n'] else []

inductive Quoted (text : List Char) : List Char → Prop where
  | basic {body : List Char} (line : Line body text) : Quoted text ('"' :: (body ++ ['"']))
  | literal (filled : text ≠ []) (plain : ∀ c ∈ text, isPlain c = true ∧ c ≠ '\'') :
      Quoted text ('\'' :: (text ++ ['\'']))
  | lines {quote : Char} {escapes : Bool} {body : List Char}
      (mark : quote = '"' ∧ escapes = true ∨ quote = '\'' ∧ escapes = false)
      (body' : Body quote escapes 0 body text) :
      Quoted text (quote :: quote :: quote :: (opening text ++ (body ++ [quote, quote, quote])))

theorem shownPlain {c : Char} (shown : needsEscape c = false) : c = '\n' ∨ isPlain c = true := by
  by_cases newline : c = '\n'
  · exact .inl newline
  · right
    by_cases tab : c = '\t'
    · subst tab
      rfl
    · simp only [needsEscape, newline, tab, ne_eq, not_false_eq_true, decide_true, Bool.and_true,
        Bool.or_eq_false_iff, decide_eq_false_iff_not, beq_eq_false_iff_ne] at shown
      exact visiblePlain shown.1 shown.2

theorem quoteQuoted (text : List Char) : Quoted text (quote text) := by
  have shown : (!text.any needsEscape) = true → ∀ c ∈ text, c = '\n' ∨ isPlain c = true := by
    intro all c inside
    rw [Bool.not_eq_true', List.any_eq_false] at all
    exact shownPlain (Bool.eq_false_iff.mpr (all c inside))
  unfold quote quoting
  dsimp only
  split
  · exact .basic (escapedLine text 0)
  rename_i unquoted
  split
  · rename_i literal
    obtain ⟨all, oneLine, free⟩ := literal
    have plain : ∀ c ∈ text, isPlain c = true ∧ c ≠ '\'' := by
      intro c inside
      refine ⟨(shown all c inside).resolve_left ?_, ?_⟩ <;> rintro rfl
      · simp [inside] at oneLine
      · simp [inside] at free
    have filled : text ≠ [] := by
      rintro rfl
      simp at unquoted
    exact .literal filled plain
  split
  · have written := Quoted.lines (.inl ⟨rfl, rfl⟩) (escapedBody text 0)
    simpa [opening] using written
  split
  · rename_i few
    have written := Quoted.lines (.inr ⟨rfl, rfl⟩) (literalBody (shown few.1) few.2)
    simpa [opening] using written
  · cases newline : text.contains '\n' with
    | true =>
      have inside : '\n' ∈ text := by simpa using newline
      have written := Quoted.lines (.inl ⟨rfl, rfl⟩) (escapedBody text 0)
      simpa [opening, inside] using written
    | false => exact .basic (escapedLine text 0)

theorem afterOpened (text : List Char) {rest : List Char}
    (first : '\n' ∉ text → newline? rest = none) : afterOpening (opening text ++ rest) = rest := by
  unfold opening
  split
  · rfl
  · rename_i oneLine
    have none := first (by simpa using oneLine)
    simp [afterOpening, none]

theorem Line.first {body text : List Char} (line : Line body text) : body.head? ≠ some '"' := by
  cases line with
  | nil => nofun
  | next spells _ =>
    cases spells with
    | plain _ other => simpa using other.1
    | escape => simp

theorem basicStart {left : List Char} (other : ∀ more, left ≠ '"' :: '"' :: more) :
    string? ('"' :: left) = basicString (left.length + 1) [] left := by
  unfold string?
  split
  · rename_i same
    exact absurd (List.cons.inj same).2 (other _)
  · rename_i same
    rw [(List.cons.inj same).2]
  all_goals simp_all

theorem literalStart {left : List Char} (other : ∀ more, left ≠ '\'' :: '\'' :: more) :
    string? ('\'' :: left) = literalString [] left := by
  unfold string?
  split
  · simp_all
  · simp_all
  · rename_i same
    exact absurd (List.cons.inj same).2 (other _)
  · rename_i same
    rw [(List.cons.inj same).2]
  · simp_all

theorem quotedRead {text written rest : List Char} (quoted : Quoted text written)
    (ends : rest.head? ≠ some '"' ∧ rest.head? ≠ some '\'') :
    string? (written ++ rest) = some (String.ofList text, rest) := by
  cases quoted with
  | @basic body line =>
    have other : ∀ more, body ++ '"' :: rest ≠ '"' :: '"' :: more := by
      intro more same
      cases body with
      | nil => exact ends.1 (by rw [(List.cons.inj same).2]; rfl)
      | cons c left => exact line.first (congrArg some (List.cons.inj same).1)
    have read := @basicRead _ _ rest line ((body ++ '"' :: rest).length + 1)
      (by rw [List.length_append]; omega) []
    rw [List.cons_append, List.append_assoc, List.singleton_append, basicStart other, read]
    rfl
  | literal filled plain =>
    have other : ∀ more, text ++ '\'' :: rest ≠ '\'' :: '\'' :: more := by
      intro more same
      obtain ⟨c, left, rfl⟩ := List.exists_cons_of_ne_nil filled
      exact (plain c List.mem_cons_self).2 (List.cons.inj same).1
    rw [List.cons_append, List.append_assoc, List.singleton_append, literalStart other,
      literalRead plain]
    rfl
  | @lines quote escapes body mark body' =>
    have marked : quote = '"' ∨ quote = '\'' := mark.imp And.left And.left
    have other : rest.head? ≠ some quote := by
      rcases marked with rfl | rfl
      · exact ends.1
      · exact ends.2
    have first : '\n' ∉ text → newline? (body ++ quote :: quote :: quote :: rest) = none :=
      fun oneLine => body'.first marked oneLine _
    have read := @linesRead _ _ _ _ _ _ body' marked (by omega) other
      ((opening text ++ (body ++ quote :: quote :: quote :: rest)).length + 1)
      (by simp only [List.length_append, List.length_cons]; omega) []
    rw [List.reverse_nil, List.nil_append] at read
    have whole : quote :: quote :: quote :: (opening text ++ (body ++ [quote, quote, quote])) ++
        rest = quote :: quote :: quote ::
          (opening text ++ (body ++ quote :: quote :: quote :: rest)) := by simp
    rw [whole]
    rcases mark with ⟨rfl, rfl⟩ | ⟨rfl, rfl⟩
    · rw [string?, afterOpened text first, read]
    · rw [string?, afterOpened text first, read]

theorem stringRead (text : String) {rest : List Char}
    (ends : rest.head? ≠ some '"' ∧ rest.head? ≠ some '\'') :
    string? (writeString text ++ rest) = some (text, rest) := by
  rw [writeString, quotedRead (quoteQuoted text.toList) ends, String.ofList_toList]

theorem quotedFirst {text written : List Char} (quoted : Quoted text written) :
    ∃ quote more, written = quote :: more ∧ (quote = '"' ∨ quote = '\'') := by
  cases quoted with
  | basic => exact ⟨_, _, rfl, .inl rfl⟩
  | literal => exact ⟨_, _, rfl, .inr rfl⟩
  | lines mark => exact ⟨_, _, rfl, mark.imp And.left And.left⟩

end SourceModels.Toml
