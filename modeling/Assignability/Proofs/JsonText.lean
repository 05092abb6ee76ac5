import Assignability.Json.Reader
import Assignability.Json.Writer
import Assignability.Proofs.Documents
import Mathlib.Data.List.Forall2

namespace Assignability.Json

-- What is written for a value is read as the value wherever it stands, so long as what comes behind
-- it cannot go on with a number.

theorem hexDigit_digitChar : ∀ d < 16, hexDigit? (Nat.digitChar d) = some d := by decide

theorem unit_hex {n : Nat} (small : n < 0x10000) (next : Char) (rest : List Char) :
    unit? (Text.hex 4 n ++ next :: rest) = some (n, next :: rest) := by
  have digit : ∀ m, hexDigit? (Nat.digitChar (m % 16)) = some (m % 16) :=
    fun m => hexDigit_digitChar _ (Nat.mod_lt _ (by decide))
  have value : ((n / 16 / 16 / 16 % 16 * 16 + n / 16 / 16 % 16) * 16 + n / 16 % 16) * 16 + n % 16 =
      n := by omega
  simp only [Text.hex, List.nil_append, List.cons_append, unit?, digit, Option.bind_eq_bind,
    Option.bind_some, value]
  rfl

theorem toNat_valid (c : Char) : c.toNat < 0xd800 ∨ 0xdfff < c.toNat ∧ c.toNat < 0x110000 := c.valid

-- A character of the first plane has a unit of its own, which is no half of a pair.
theorem readCode_single {c : Char} (first : c.toNat < 0x10000) (next : Char) (rest : List Char) :
    readCode (Text.hex 4 c.toNat ++ next :: rest) = .ok (c, next :: rest) := by
  have valid := toNat_valid c
  have notHigh : isHighUnit c.toNat = false := by
    simp only [isHighUnit, Bool.and_eq_false_iff, decide_eq_false_iff_not]
    omega
  have notLow : isLowUnit c.toNat = false := by
    simp only [isLowUnit, Bool.and_eq_false_iff, decide_eq_false_iff_not]
    omega
  simp only [readCode, unit_hex first, notHigh, unitChar, notLow, Bool.or_self, Bool.false_eq_true,
    if_false, Char.ofNat_toNat]

theorem readCode_pair {high low : Nat} (isHigh : isHighUnit high = true)
    (isLow : isLowUnit low = true) (next : Char) (rest : List Char) :
    readCode (Text.hex 4 high ++ (escapeUnit low ++ next :: rest)) =
      .ok (pairChar high low, next :: rest) := by
  have highBound : high < 0x10000 := by
    simp only [isHighUnit, Bool.and_eq_true, decide_eq_true_eq] at isHigh
    omega
  have lowBound : low < 0x10000 := by
    simp only [isLowUnit, Bool.and_eq_true, decide_eq_true_eq] at isLow
    omega
  have long : ¬ ('\\' :: 'u' :: (Text.hex 4 low ++ next :: rest)).length < 7 := by
    simp [Text.hex]
  show readCode (Text.hex 4 high ++ '\\' :: 'u' :: (Text.hex 4 low ++ next :: rest)) = _
  simp only [readCode, unit_hex highBound, isHigh, if_true, readPair, if_neg long,
    unit_hex lowBound, isLow]

theorem readCode_double {c : Char} (beyond : ¬ c.toNat < 0x10000) (next : Char)
    (rest : List Char) :
    readCode (Text.hex 4 (0xd800 + (c.toNat - 0x10000) / 0x400) ++
      (escapeUnit (0xdc00 + (c.toNat - 0x10000) % 0x400) ++ next :: rest)) =
        .ok (c, next :: rest) := by
  have valid := toNat_valid c
  have isHigh : isHighUnit (0xd800 + (c.toNat - 0x10000) / 0x400) = true := by
    simp only [isHighUnit, Bool.and_eq_true, decide_eq_true_eq]
    omega
  have isLow : isLowUnit (0xdc00 + (c.toNat - 0x10000) % 0x400) = true := by
    simp only [isLowUnit, Bool.and_eq_true, decide_eq_true_eq]
    omega
  have code : 0x10000 + (0xd800 + (c.toNat - 0x10000) / 0x400 - 0xd800) * 0x400 +
      (0xdc00 + (c.toNat - 0x10000) % 0x400 - 0xdc00) = c.toNat := by omega
  rw [readCode_pair isHigh isLow, pairChar, code, Char.ofNat_toNat]

-- A character goes in front of what is read after it.
def prepend (c : Char) (read : Except Complaint (List Char × List Char)) :
    Except Complaint (List Char × List Char) :=
  read.map fun p => (c :: p.1, p.2)

theorem readChars_backslash {start steps : Nat} {after rest : List Char} {c : Char}
    (escape : readEscape start after = .ok (c, rest)) :
    readChars start (steps + 1) ('\\' :: after) = prepend c (readChars start steps rest) := by
  rw [readChars, if_neg (by decide), if_pos (by decide), escape]
  show (readChars start steps rest >>= fun p => pure (c :: p.1, p.2)) = _
  cases readChars start steps rest <;> rfl

theorem readEscape_code (start : Nat) (after : List Char) :
    readEscape start ('u' :: after) = readCode after := by
  rw [readEscape]

theorem readChars_code (c : Char) (start steps : Nat) (next : Char) (rest : List Char) :
    readChars start (steps + 1) (escapeCode c ++ next :: rest) =
      prepend c (readChars start steps (next :: rest)) := by
  unfold escapeCode
  split
  · rename_i first
    rw [escapeUnit, List.cons_append, List.cons_append]
    exact readChars_backslash ((readEscape_code _ _).trans (readCode_single first next rest))
  · rename_i beyond
    have read := readCode_double beyond next rest
    simp only [escapeUnit, List.cons_append, List.append_assoc] at read ⊢
    exact readChars_backslash ((readEscape_code _ _).trans read)

-- Every character is written in a way that one step reads.
theorem readChars_escape (c : Char) (start steps : Nat) (next : Char) (rest : List Char) :
    readChars start (steps + 1) (escapeChar true c ++ next :: rest) =
      prepend c (readChars start steps (next :: rest)) := by
  unfold escapeChar
  by_cases quote : c = '\"'
  · subst quote
    exact readChars_backslash rfl
  by_cases backslash : c = '\\'
  · subst backslash
    exact readChars_backslash rfl
  by_cases newline : c = '\n'
  · subst newline
    exact readChars_backslash rfl
  by_cases carriage : c = '\r'
  · subst carriage
    exact readChars_backslash rfl
  by_cases tab : c = '\t'
  · subst tab
    exact readChars_backslash rfl
  by_cases backspace : c = '\x08'
  · subst backspace
    exact readChars_backslash rfl
  by_cases feed : c = '\x0c'
  · subst feed
    exact readChars_backslash rfl
  simp only [beq_iff_eq, quote, backslash, newline, carriage, tab, backspace, feed, if_false]
  split
  · exact readChars_code c start steps next rest
  · rename_i plain
    simp only [Bool.or_eq_true, decide_eq_true_eq, not_or] at plain
    rw [List.singleton_append, readChars, if_neg (by simpa using quote),
      if_neg (by simpa using backslash), if_neg plain.1]
    cases readChars start steps (next :: rest) <;> rfl

theorem exists_before {n steps : Nat} (enough : n < steps) : ∃ before, steps = before + 1 :=
  Nat.exists_eq_succ_of_ne_zero (Nat.ne_of_gt (Nat.zero_lt_of_lt enough))

theorem readChars_flatMap (cs : List Char) {start steps : Nat} (enough : cs.length < steps)
    (rest : List Char) :
    readChars start steps (cs.flatMap (escapeChar true) ++ '\"' :: rest) = .ok (cs, rest) := by
  induction cs generalizing steps with
  | nil =>
    obtain ⟨steps, rfl⟩ := exists_before enough
    rfl
  | cons c cs ih =>
    obtain ⟨steps, rfl⟩ := exists_before enough
    have read := ih (Nat.lt_of_succ_lt_succ enough)
    rw [List.flatMap_cons, List.append_assoc]
    cases opening : cs.flatMap (escapeChar true) ++ '\"' :: rest with
    | nil => simp at opening
    | cons next more => rw [readChars_escape, ← opening, read]; rfl

theorem escapeChar_length (c : Char) : 0 < (escapeChar true c).length := by
  unfold escapeChar escapeCode escapeUnit
  split_ifs <;> simp

theorem flatMap_length (cs : List Char) : cs.length ≤ (cs.flatMap (escapeChar true)).length := by
  induction cs with
  | nil => exact Nat.le_refl 0
  | cons c cs ih =>
    have positive := escapeChar_length c
    rw [List.flatMap_cons, List.length_append, List.length_cons]
    omega

theorem readText_write (s : String) (rest : List Char) :
    readText (s.toList.flatMap (escapeChar true) ++ '\"' :: rest) = .ok (s, rest) := by
  have longer := flatMap_length s.toList
  rw [readText, readChars_flatMap s.toList (by rw [List.length_append]; omega)]
  show Except.ok (String.ofList s.toList, rest) = _
  rw [String.ofList_toList]

-- What may stand after a value: nothing that goes on with a number.
def Closes (rest : List Char) : Prop :=
  ∀ c tail, rest = c :: tail → c = ',' ∨ c = ']' ∨ c = '\x7d'

theorem closes_nil : Closes [] := fun _ _ same => nomatch same

theorem closes_cons {c : Char} (closing : c = ',' ∨ c = ']' ∨ c = '\x7d') (tail : List Char) :
    Closes (c :: tail) := by
  rintro _ _ ⟨⟩
  exact closing

theorem toDigits_head {k : Nat} (positive : 0 < k) {c : Char} {tail : List Char}
    (digits : Nat.toDigits 10 k = c :: tail) : c ≠ '0' := by
  induction k using Nat.strongRecOn generalizing tail with
  | ind k ih =>
    by_cases small : k < 10
    · rw [Nat.toDigits_of_lt_base small] at digits
      cases digits
      have all : ∀ d < 10, 0 < d → Nat.digitChar d ≠ '0' := by decide
      exact all k small positive
    · rw [Nat.toDigits_of_base_le (by decide) (Nat.le_of_not_lt small)] at digits
      cases front : Nat.toDigits 10 (k / 10) with
      | nil => exact absurd front Nat.toDigits_ne_nil
      | cons d more =>
        rw [front] at digits
        cases digits
        exact ih (k / 10) (Nat.div_lt_self positive (by decide)) (by omega) front

theorem digits_append {ds rest : List Char} (all : ∀ d ∈ ds, d.isDigit = true)
    (closes : Closes rest) : Decimal.digits (ds ++ rest) = (ds, rest) := by
  have stops : rest.takeWhile Char.isDigit = [] ∧ rest.dropWhile Char.isDigit = rest := by
    cases rest with
    | nil => exact ⟨rfl, rfl⟩
    | cons c tail => rcases closes c tail rfl with rfl | rfl | rfl <;> exact ⟨rfl, rfl⟩
  rw [Decimal.digits, List.takeWhile_append_of_pos all, List.dropWhile_append_of_pos all, stops.1,
    stops.2, List.append_nil]

theorem toDigits_isDigit (k : Nat) : ∀ d ∈ Nat.toDigits 10 k, d.isDigit = true :=
  fun _ member => Nat.isDigit_of_mem_toDigits (by decide) (by decide) member

theorem wholePart_toDigits (k : Nat) {rest : List Char} (closes : Closes rest) :
    Decimal.wholePart? (Nat.toDigits 10 k ++ rest) = some (Nat.toDigits 10 k, rest) := by
  by_cases zero : k = 0
  · subst zero
    rfl
  · have taken := digits_append (toDigits_isDigit k) closes
    have isDigit := toDigits_isDigit k
    cases digits : Nat.toDigits 10 k with
    | nil => exact absurd digits Nat.toDigits_ne_nil
    | cons c tail =>
      have notZero := toDigits_head (Nat.pos_of_ne_zero zero) digits
      rw [digits] at taken isDigit
      rw [List.cons_append] at taken ⊢
      rw [Decimal.wholePart?, if_pos (isDigit c List.mem_cons_self), taken]
      intro same
      exact notZero same

theorem scanTail_closes (negative : Bool) (ds : List Char) {rest : List Char}
    (closes : Closes rest) :
    Decimal.scanTail negative ds rest =
      (.whole (Decimal.signed negative (Decimal.value ds)), rest) := by
  cases rest with
  | nil => rfl
  | cons c tail => rcases closes c tail rfl with rfl | rfl | rfl <;> rfl

-- No word begins with a digit.
theorem word_digits {k : Nat} (rest : List Char) :
    word? (Nat.toDigits 10 k ++ rest) = none ∧
      word? ('-' :: (Nat.toDigits 10 k ++ rest)) = none := by
  have isDigit := toDigits_isDigit k
  cases digits : Nat.toDigits 10 k with
  | nil => exact absurd digits Nat.toDigits_ne_nil
  | cons c tail =>
    rw [digits] at isDigit
    have here := isDigit c List.mem_cons_self
    have differs : ∀ d : Char, d.isDigit = false → (d == c) = false := by
      intro d notDigit
      rw [beq_eq_false_iff_ne]
      rintro rfl
      rw [here] at notDigit
      cases notDigit
    constructor <;>
      simp [word?, words, List.find?, List.isPrefixOf, differs 'n' rfl, differs 't' rfl,
        differs 'f' rfl, differs 'N' rfl, differs 'I' rfl, differs '-' rfl]

theorem value_toDigits (k : Nat) : Decimal.value (Nat.toDigits 10 k) = k :=
  Nat.ofDigitChars_toDigits (by decide) (by decide)

theorem scan_negative (k : Nat) {rest : List Char} (closes : Closes rest) :
    Decimal.scan ('-' :: (Nat.toDigits 10 k ++ rest)) = some (.whole (-(k : Int)), rest) := by
  show (Decimal.wholePart? (Nat.toDigits 10 k ++ rest)).map _ = _
  rw [wholePart_toDigits k closes]
  show some (Decimal.scanTail true (Nat.toDigits 10 k) rest) = _
  rw [scanTail_closes true _ closes, value_toDigits]
  rfl

theorem scan_digits (k : Nat) {rest : List Char} (closes : Closes rest) :
    Decimal.scan (Nat.toDigits 10 k ++ rest) = some (.whole k, rest) := by
  have whole := wholePart_toDigits k closes
  have isDigit := toDigits_isDigit k
  have tailed := scanTail_closes false (Nat.toDigits 10 k) closes
  rw [value_toDigits] at tailed
  unfold Decimal.scan
  split
  rename_i negative body unsigned
  split at unsigned
  · rename_i opening
    cases digits : Nat.toDigits 10 k with
    | nil => exact absurd digits Nat.toDigits_ne_nil
    | cons c tail =>
      rw [digits] at opening isDigit
      cases opening
      exact absurd (isDigit _ List.mem_cons_self) (by decide)
  · cases unsigned
    rw [whole]
    exact congrArg some tailed

theorem readAtom_whole {cs rest : List Char} {n : Int} (noWord : word? cs = none)
    (scanned : Decimal.scan cs = some (.whole n, rest)) : readAtom cs = .ok (.int n, rest) := by
  rw [readAtom, noWord, scanned]

theorem readAtom_int (n : Int) {rest : List Char} (closes : Closes rest) :
    readAtom (writeInt n ++ rest) = .ok (.int n, rest) := by
  unfold writeInt
  by_cases negative : n < 0
  · rw [if_pos negative, List.cons_append]
    have scanned := scan_negative n.natAbs closes
    have same : -(n.natAbs : Int) = n := by omega
    rw [same] at scanned
    exact readAtom_whole (word_digits rest).2 scanned
  · rw [if_neg negative]
    have scanned := scan_digits n.natAbs closes
    have same : (n.natAbs : Int) = n := by omega
    rw [same] at scanned
    exact readAtom_whole (word_digits rest).1 scanned

-- Characters with which no value begins: blanks, what ends a list or a table, and the byte order
-- mark.
def outside : List Char := [' ', '\t', '\n', '\r', ']', '\x7d', '\ufeff']

def Opens (cs : List Char) : Prop := ∃ c tail, cs = c :: tail ∧ c ∉ outside

theorem isBlank_of_inside {c : Char} (inside : c ∉ outside) : isBlank c = false := by
  simp only [outside, List.mem_cons, List.not_mem_nil, or_false, not_or] at inside
  simp [isBlank, inside]

-- The text stands for the value, whatever comes after it.
structure Reads (v : Value) (cs : List Char) : Prop where
  opens : Opens cs
  read : ∀ steps rest, 2 * cs.length ≤ steps → Closes rest →
    Json.read steps (cs ++ rest) = .ok (v, rest)

theorem read_atom {c : Char} {tail : List Char} (steps : Nat) (notQuote : c ≠ '\"')
    (notBracket : c ≠ '[') (notBrace : c ≠ '\x7b') :
    Json.read (steps + 1) (c :: tail) = readAtom (c :: tail) := by
  rw [Json.read]
  · rintro _ ⟨⟩
    exact notQuote rfl
  · rintro _ ⟨⟩
    exact notBracket rfl
  · rintro _ ⟨⟩
    exact notBrace rfl

theorem skipBlanks_opens {cs : List Char} (opens : Opens cs) (rest : List Char) :
    skipBlanks (cs ++ rest) = cs ++ rest := by
  obtain ⟨c, tail, rfl, inside⟩ := opens
  rw [List.cons_append, skipBlanks,
    List.dropWhile_cons_of_neg (by rw [isBlank_of_inside inside]; exact Bool.false_ne_true)]

-- There is at least one step to take.
theorem exists_step {cs : List Char} {steps : Nat} (opens : Opens cs)
    (enough : 2 * cs.length ≤ steps) :
    ∃ before, steps = before + 1 ∧ 2 * cs.length ≤ before + 1 := by
  obtain ⟨c, tail, rfl, -⟩ := opens
  rw [List.length_cons] at enough ⊢
  exact ⟨steps - 1, by omega, by omega⟩

theorem reads_null : Reads .null "null".toList where
  opens := ⟨'n', _, rfl, by decide⟩
  read steps rest enough _ := by
    obtain ⟨before, rfl, -⟩ := exists_step ⟨'n', _, rfl, by decide⟩ enough
    exact read_atom before (by decide) (by decide) (by decide)

theorem reads_bool (b : Bool) : Reads (.bool b) (writeBool b) := by
  cases b with
  | false =>
    have opens : Opens (writeBool false) := ⟨'f', _, rfl, by decide⟩
    refine ⟨opens, fun steps rest enough _ => ?_⟩
    obtain ⟨before, rfl, -⟩ := exists_step opens enough
    exact read_atom before (by decide) (by decide) (by decide)
  | true =>
    have opens : Opens (writeBool true) := ⟨'t', _, rfl, by decide⟩
    refine ⟨opens, fun steps rest enough _ => ?_⟩
    obtain ⟨before, rfl, -⟩ := exists_step opens enough
    exact read_atom before (by decide) (by decide) (by decide)

theorem writeInt_head (n : Int) :
    ∃ c tail, writeInt n = c :: tail ∧ (c = '-' ∨ c.isDigit = true) := by
  unfold writeInt
  split
  · exact ⟨'-', _, rfl, .inl rfl⟩
  · have isDigit := toDigits_isDigit n.natAbs
    cases digits : Nat.toDigits 10 n.natAbs with
    | nil => exact absurd digits Nat.toDigits_ne_nil
    | cons c tail =>
      rw [digits] at isDigit
      exact ⟨c, tail, rfl, .inr (isDigit c List.mem_cons_self)⟩

theorem reads_int (n : Int) : Reads (.int n) (writeInt n) := by
  obtain ⟨c, tail, written, head⟩ := writeInt_head n
  have differs : ∀ d : Char, d ≠ '-' → d.isDigit = false → c ≠ d := by
    rintro d notMinus notDigit rfl
    rcases head with isMinus | isDigit
    · exact notMinus isMinus
    · rw [isDigit] at notDigit
      cases notDigit
  have opens : Opens (writeInt n) := by
    refine ⟨c, tail, written, fun member => ?_⟩
    have none : outside.all (fun d => d != '-' && !d.isDigit) = true := rfl
    have here := List.all_eq_true.mp none c member
    rw [Bool.and_eq_true, bne_iff_ne, Bool.not_eq_true'] at here
    exact differs c here.1 here.2 rfl
  refine ⟨opens, fun steps rest enough closes => ?_⟩
  obtain ⟨before, rfl, -⟩ := exists_step opens enough
  have atom := readAtom_int n closes
  rw [written, List.cons_append] at atom ⊢
  rw [read_atom before (differs _ (by decide) rfl) (differs _ (by decide) rfl)
    (differs _ (by decide) rfl), atom]

theorem reads_text (s : String) : Reads (.text s) (writeText true s) := by
  have opens : Opens (writeText true s) := ⟨'\"', _, rfl, by decide⟩
  refine ⟨opens, fun steps rest enough _ => ?_⟩
  obtain ⟨before, rfl, -⟩ := exists_step opens enough
  rw [writeText, List.cons_append, List.append_assoc, List.singleton_append, Json.read,
    readText_write]
  rfl

theorem enclose_default (level : Nat) (opening closing : Char) (items : List (List Char)) :
    enclose {} level opening closing items =
      opening :: (", ".toList.intercalate items ++ [closing]) := by
  simp [enclose, lineBreak]

theorem opens_append {cs : List Char} (opens : Opens cs) (rest : List Char) :
    Opens (cs ++ rest) := by
  obtain ⟨c, tail, rfl, inside⟩ := opens
  exact ⟨c, tail ++ rest, rfl, inside⟩

theorem skipBlanks_self {cs : List Char} (opens : Opens cs) : skipBlanks cs = cs := by
  simpa using skipBlanks_opens opens []

-- What comes after a separator is read from where it begins.
theorem skipBlanks_space {cs : List Char} (opens : Opens cs) : skipBlanks (' ' :: cs) = cs := by
  rw [skipBlanks, List.dropWhile_cons_of_pos (by decide)]
  exact skipBlanks_self opens

theorem readItems_write {items : List Value} {texts : List (List Char)}
    (all : List.Forall₂ Reads items texts) (some : texts ≠ []) :
    Opens (", ".toList.intercalate texts) ∧
    ∀ steps rest, 2 * (", ".toList.intercalate texts).length < steps →
      readItems steps (", ".toList.intercalate texts ++ ']' :: rest) = .ok (items, rest) := by
  induction all with
  | nil => exact absurd rfl some
  | @cons v cs items texts first others ih =>
    cases others with
    | nil =>
      rw [List.intercalate_singleton]
      refine ⟨first.opens, fun steps rest enough => ?_⟩
      obtain ⟨before, rfl⟩ := exists_before enough
      have closes := closes_cons (.inr (.inl rfl)) rest
      rw [readItems, first.read before (']' :: rest) (by omega) closes]
      rfl
    | @cons w ds items texts second others =>
      obtain ⟨opens, readRest⟩ := ih (List.cons_ne_nil _ _)
      rw [List.intercalate_cons_cons, List.append_assoc]
      refine ⟨opens_append first.opens _, fun steps rest enough => ?_⟩
      obtain ⟨before, rfl⟩ := exists_before enough
      have length : (", ".toList).length = 2 := rfl
      simp only [List.length_append, length] at enough
      have readFirst := first.read before
        (", ".toList ++ (", ".toList.intercalate (ds :: texts) ++ ']' :: rest)) (by omega)
        (closes_cons (.inl rfl) _)
      rw [readItems, List.append_assoc, List.append_assoc, readFirst]
      show (readItems before (skipBlanks (' ' ::
        (", ".toList.intercalate (ds :: texts) ++ ']' :: rest))) >>= _) = _
      rw [skipBlanks_space (opens_append opens _), readRest before rest (by omega)]
      rfl

theorem read_bracket {cs : List Char} (opens : Opens cs) (steps : Nat) :
    Json.read (steps + 1) ('[' :: cs) =
      (readItems steps cs).map fun p => (.list p.1, p.2) := by
  rw [Json.read, skipBlanks_self opens]
  obtain ⟨c, tail, rfl, inside⟩ := opens
  split
  · rename_i closing
    cases closing
    exact absurd (by decide) inside
  · cases readItems steps (c :: tail) <;> rfl

theorem reads_list {items : List Value} {texts : List (List Char)}
    (all : List.Forall₂ Reads items texts) (level : Nat) :
    Reads (.list items) (writeItems {} level texts) := by
  cases all with
  | nil =>
    have opens : Opens (writeItems {} level []) := ⟨'[', _, rfl, by decide⟩
    refine ⟨opens, fun steps rest enough _ => ?_⟩
    obtain ⟨before, rfl, -⟩ := exists_step opens enough
    rfl
  | @cons v cs items texts first others =>
    obtain ⟨opens, readAll⟩ := readItems_write (.cons first others) (List.cons_ne_nil _ _)
    show Reads _ (enclose {} level '[' ']' (cs :: texts))
    rw [enclose_default]
    refine ⟨⟨'[', _, rfl, by decide⟩, fun steps rest enough _ => ?_⟩
    obtain ⟨before, rfl, enough⟩ :=
      exists_step ⟨'[', _, rfl, by decide⟩ enough
    simp only [List.length_cons, List.length_append, List.length_nil] at enough
    rw [List.cons_append, List.append_assoc, List.singleton_append,
      read_bracket (opens_append opens _), readAll before rest (by omega)]
    rfl

-- A name and the text of a value, as they stand in a table.
def memberText (name : String) (cs : List Char) : List Char :=
  writeText true name ++ ": ".toList ++ cs

theorem memberText_append (name : String) (cs rest : List Char) :
    memberText name cs ++ rest =
      '\"' :: (name.toList.flatMap (escapeChar true) ++ '\"' :: ':' :: ' ' :: (cs ++ rest)) := by
  simp [memberText, writeText]

section
variable {name : String} {v : Value} {cs : List Char} (reads : Reads v cs) {steps : Nat}
  (enough : 2 * cs.length ≤ steps)
include reads enough

theorem readMembers_last (rest : List Char) :
    readMembers (steps + 1) (memberText name cs ++ '\x7d' :: rest) =
      .ok ([(.text name, v)], rest) := by
  rw [memberText_append, readMembers, readText_write]
  show (Json.read steps (skipBlanks (' ' :: (cs ++ '\x7d' :: rest))) >>= _) = _
  rw [skipBlanks_space (opens_append reads.opens _),
    reads.read steps _ enough (closes_cons (.inr (.inr rfl)) rest)]
  rfl

theorem readMembers_more {more : List Char} (opens : Opens more) :
    readMembers (steps + 1) (memberText name cs ++ (", ".toList ++ more)) =
      (readMembers steps more).map fun p => ((.text name, v) :: p.1, p.2) := by
  rw [memberText_append, readMembers, readText_write]
  show (Json.read steps (skipBlanks (' ' :: (cs ++ (", ".toList ++ more)))) >>= _) = _
  rw [skipBlanks_space (opens_append reads.opens _),
    reads.read steps (", ".toList ++ more) enough (closes_cons (.inl rfl) _)]
  show (readMembers steps (skipBlanks (' ' :: more)) >>= _) = _
  rw [skipBlanks_space opens]
  cases readMembers steps more <;> rfl

end

theorem opens_memberText (name : String) (cs : List Char) : Opens (memberText name cs) :=
  ⟨'\"', _, rfl, by decide⟩

theorem memberText_length (name : String) (cs : List Char) :
    cs.length < (memberText name cs).length := by
  simp only [memberText, writeText, List.length_append, List.length_cons]
  omega

-- An entry and its text: the key is a name.
inductive ReadsMember : Value × Value → List Char → Prop
  | intro (name : String) {v : Value} {cs : List Char} (reads : Reads v cs) :
      ReadsMember (.text name, v) (memberText name cs)

theorem readMembers_write {entries : Entries} {texts : List (List Char)}
    (all : List.Forall₂ ReadsMember entries texts) (some : texts ≠ []) :
    Opens (", ".toList.intercalate texts) ∧
    ∀ steps rest, 2 * (", ".toList.intercalate texts).length < steps →
      readMembers steps (", ".toList.intercalate texts ++ '\x7d' :: rest) =
        .ok (entries, rest) := by
  induction all with
  | nil => exact absurd rfl some
  | @cons e text entries texts first others ih =>
    obtain ⟨name, reads⟩ := first
    rename_i v cs
    have shorter := memberText_length name cs
    cases others with
    | nil =>
      rw [List.intercalate_singleton]
      refine ⟨opens_memberText name cs, fun steps rest enough => ?_⟩
      obtain ⟨before, rfl⟩ := exists_before enough
      exact readMembers_last reads (by omega) rest
    | @cons e' text' entries texts second others =>
      obtain ⟨opens, readRest⟩ := ih (List.cons_ne_nil _ _)
      rw [List.intercalate_cons_cons, List.append_assoc]
      refine ⟨opens_append (opens_memberText name cs) _, fun steps rest enough => ?_⟩
      obtain ⟨before, rfl⟩ := exists_before enough
      have length : (", ".toList).length = 2 := rfl
      simp only [List.length_append, length] at enough
      rw [List.append_assoc, List.append_assoc,
        readMembers_more reads (by omega) (opens_append opens _), readRest before rest (by omega)]
      rfl

theorem read_brace {cs : List Char} (opens : Opens cs) (steps : Nat) :
    Json.read (steps + 1) ('\x7b' :: cs) =
      (readMembers steps cs).map fun p => (.table (Entries.update [] p.1), p.2) := by
  rw [Json.read, skipBlanks_self opens]
  obtain ⟨c, tail, rfl, inside⟩ := opens
  split
  · rename_i closing
    cases closing
    exact absurd (by decide) inside
  · cases readMembers steps (c :: tail) <;> rfl

theorem reads_table {entries : Entries} {texts : List (List Char)}
    (all : List.Forall₂ ReadsMember entries texts)
    (settled : Entries.update [] entries = entries) (some : texts ≠ []) (level : Nat) :
    Reads (.table entries) (enclose {} level '\x7b' '\x7d' texts) := by
  obtain ⟨opens, readAll⟩ := readMembers_write all some
  rw [enclose_default]
  refine ⟨⟨'\x7b', _, rfl, by decide⟩, fun steps rest enough _ => ?_⟩
  obtain ⟨before, rfl, enough⟩ := exists_step ⟨'\x7b', _, rfl, by decide⟩ enough
  simp only [List.length_cons, List.length_append, List.length_nil] at enough
  rw [List.cons_append, List.append_assoc, List.singleton_append,
    read_brace (opens_append opens _), readAll before rest (by omega)]
  show Except.ok (Value.table (Entries.update [] entries), rest) = _
  rw [settled]

theorem reads_empty : Reads (.table []) ['\x7b', '\x7d'] := by
  have opens : Opens ['\x7b', '\x7d'] := ⟨'\x7b', _, rfl, by decide⟩
  refine ⟨opens, fun steps rest enough _ => ?_⟩
  obtain ⟨before, rfl, -⟩ := exists_step opens enough
  rfl

-- Names that differ stay where they are.
theorem update_nil {fields : List (String × Value)} (distinct : (fields.map Prod.fst).Nodup) :
    Entries.update [] (Entries.named fields) = Entries.named fields := by
  have kept : (fields.filter fun f => (Entries.find? [] f.1).isNone) = fields :=
    List.filter_eq_self.mpr fun _ _ => rfl
  have free : ∀ f ∈ fields, ∀ v, Entries.find? [] f.1 = some v → v = f.2 := by
    intro f _ v found
    cases found
  rw [Entries.update_named distinct free, kept, List.nil_append]

-- Scalars whose text tells them exactly.
def isExact : Scalar → Bool
  | .real _ => false
  | _ => true

mutual

theorem write_reads (level : Nat) : (v : Value) → v.isData isExact = true →
    ∃ cs, write {} level v = .ok cs ∧ Reads v cs
  | .null, _ => ⟨_, rfl, reads_null⟩
  | .scalar (.bool b), _ => ⟨_, rfl, reads_bool b⟩
  | .scalar (.int n), _ => ⟨_, rfl, reads_int n⟩
  | .scalar (.text s), _ => ⟨_, rfl, reads_text s⟩
  | .list items, data => by
    obtain ⟨texts, written, all⟩ := writeAll_reads (level + 1) items data
    refine ⟨_, ?_, reads_list all level⟩
    rw [write, written]
    rfl
  | .table [], _ => ⟨_, rfl, reads_empty⟩
  | .table (e :: rest), data => by
    obtain ⟨texts, written, all⟩ := writeValues_reads (level + 1) (e :: rest) data
    obtain ⟨fields, isNamed, distinct⟩ := entriesData_named data
    have settled : Entries.update [] (e :: rest) = e :: rest := by
      rw [isNamed]
      exact update_nil distinct
    have some : texts ≠ [] := by
      rintro rfl
      cases all
    refine ⟨_, ?_, reads_table all settled some level⟩
    show (joinMembers {} (writeValues {} (level + 1) (e :: rest)) >>= _) = _
    rw [written]
    rfl
termination_by structural x => x

theorem writeAll_reads (level : Nat) : (items : List Value) → Value.areData isExact items = true →
    ∃ texts, writeAll {} level items = .ok texts ∧ List.Forall₂ Reads items texts
  | [], _ => ⟨[], rfl, .nil⟩
  | v :: rest, data => by
    obtain ⟨here, others⟩ := Bool.and_eq_true_iff.mp data
    obtain ⟨cs, written, reads⟩ := write_reads level v here
    obtain ⟨texts, writtenAll, all⟩ := writeAll_reads level rest others
    refine ⟨cs :: texts, ?_, .cons reads all⟩
    rw [writeAll, written, writtenAll]
    rfl
termination_by structural x => x

theorem writeValues_reads (level : Nat) : (entries : List (Value × Value)) →
    Value.entriesData isExact entries = true →
    ∃ texts, joinMembers {} (writeValues {} level entries) = .ok texts ∧
      List.Forall₂ ReadsMember entries texts
  | [], _ => ⟨[], rfl, .nil⟩
  | (.scalar (.text name), v) :: rest, data => by
    obtain ⟨-, here, others⟩ := entriesData_cons.mp data
    obtain ⟨cs, written, reads⟩ := write_reads level v here
    obtain ⟨texts, writtenAll, all⟩ := writeValues_reads level rest others
    refine ⟨memberText name cs :: texts, ?_, .cons (.intro name reads) all⟩
    have notSkipped : ¬ (false && !isWritableKey (.text name)) = true := Bool.false_ne_true
    rw [writeValues, joinMembers, if_neg notSkipped, written, writtenAll]
    rfl
termination_by structural x => x

end

-- Data whose scalars are exact has a text, and the text stands for the data.
theorem parse_render {v : Value} (data : v.isData isExact = true) :
    ∃ text, render {} v = .ok text ∧ parse text = .ok v := by
  obtain ⟨cs, written, reads⟩ := write_reads 0 v data
  refine ⟨String.ofList cs, ?_, ?_⟩
  · rw [render, written]
    rfl
  · have whole : readWhole cs = .ok v := by
      have read := reads.read (2 * cs.length + 2) [] (by omega) closes_nil
      rw [List.append_nil] at read
      obtain ⟨c, tail, opening, inside⟩ := id reads.opens
      unfold readWhole
      split
      · cases opening
        exact absurd (by decide) inside
      · rw [skipBlanks_self reads.opens, read]
        rfl
    simp only [parse, String.toList_ofList, whole]

end Assignability.Json
