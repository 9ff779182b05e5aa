import DeltaCircuit.Text.Blank
import DeltaCircuit.Text.Integer
import Mathlib.Data.List.DropRight
import Mathlib.Data.Nat.Digits.Defs

/-!
# Integers in texts, as they are spelled

The reader of integers drops blanks, looks for a sign and folds over the digits. What it reads is
said here without any of these steps: which texts spell an integer, and which integer that is.

* `Text.Signs` — a sign and the factor it stands for.
* `Text.Numeral` — an integer in decimal. The place of a digit counts from the right, each place ten
  times the one before it.
* `Text.Spells` — a numeral with blanks around it.
* `Text.readInt?_trim` — the reader finds exactly what is spelled.
-/

namespace DeltaCircuit.Text

/-- The number that a decimal digit stands for. -/
def digit (c : Char) : Nat := c.toNat - '0'.toNat

/-- A sign and the factor it stands for; there may be none. -/
inductive Signs : List Char → Int → Prop
  | absent : Signs [] 1
  | plus : Signs ['+'] 1
  | minus : Signs ['-'] (-1)

/-- **Numerals.** A sign and at least one digit. -/
inductive Numeral : List Char → Int → Prop
  | intro {sign digits : List Char} {factor : Int} (hsign : Signs sign factor)
      (hsome : digits ≠ []) (hdigits : ∀ c ∈ digits, c.isDigit = true) :
      Numeral (sign ++ digits) (factor * (Nat.ofDigits 10 (digits.reverse.map digit) : Nat))

/-- **Spelled integers.** A numeral with blanks around it. -/
inductive Spells : List Char → Int → Prop
  | intro {before numeral after : List Char} {i : Int}
      (hbefore : ∀ c ∈ before, isBlank c = true) (hnumeral : Numeral numeral i)
      (hafter : ∀ c ∈ after, isBlank c = true) : Spells (before ++ numeral ++ after) i

variable {cs ds : List Char} {c : Char} {i : Int} {n : Nat}

/-! ### Digits -/

theorem digitsValue_concat : digitsValue (ds ++ [c]) = 10 * digitsValue ds + digit c := by
  unfold digitsValue
  rw [List.foldl_append]
  rfl

theorem digitsValue_eq : digitsValue ds = Nat.ofDigits 10 (ds.reverse.map digit) := by
  -- the fold takes the digits from the left, so the induction adds one on the right
  induction ds using List.reverseRecOn with
  | nil => rfl
  | append_singleton ds c ih =>
    rw [digitsValue_concat, ih, List.reverse_append, List.reverse_singleton, List.singleton_append,
      List.map_cons, Nat.ofDigits_cons, Nat.add_comm]

theorem readNat?_eq_some :
    readNat? ds = some n ↔
      ds ≠ [] ∧ (∀ c ∈ ds, c.isDigit = true) ∧ n = Nat.ofDigits 10 (ds.reverse.map digit) := by
  have htest : (!ds.isEmpty && ds.all Char.isDigit) = true ↔
      ds ≠ [] ∧ ∀ c ∈ ds, c.isDigit = true := by
    rw [Bool.and_eq_true, List.all_eq_true, Bool.not_eq_true', List.isEmpty_eq_false_iff]
  unfold readNat?
  rw [← digitsValue_eq, Option.ite_none_right_eq_some, htest, and_assoc, Option.some.injEq,
    eq_comm (a := digitsValue ds)]

/-! ### Blanks -/

theorem trim_eq : trim cs = (cs.dropWhile isBlank).rdropWhile isBlank := rfl

/-- What is dropped is blank. -/
theorem exists_append_trim (cs : List Char) :
    ∃ before after, (∀ c ∈ before, isBlank c = true) ∧ (∀ c ∈ after, isBlank c = true) ∧
      cs = before ++ trim cs ++ after := by
  refine ⟨cs.takeWhile isBlank, (cs.dropWhile isBlank).rtakeWhile isBlank,
    fun _ => List.mem_takeWhile_imp, fun _ => List.mem_rtakeWhile_imp, ?_⟩
  rw [trim_eq, List.append_assoc, List.rdropWhile_append_rtakeWhile, List.takeWhile_append_dropWhile]

/-- Of a text that neither starts nor ends with a blank, with blanks around it, that text is left. -/
theorem trim_append {before core after : List Char} (hbefore : ∀ c ∈ before, isBlank c = true)
    (hafter : ∀ c ∈ after, isBlank c = true) (hsome : core ≠ [])
    (hfirst : isBlank (core.head hsome) = false) (hlast : isBlank (core.getLast hsome) = false) :
    trim (before ++ core ++ after) = core := by
  -- the blanks in front go, and the text itself does not start with one
  have hdrop : (before ++ core ++ after).dropWhile isBlank = core ++ after := by
    rw [List.append_assoc, List.dropWhile_append_of_pos hbefore]
    obtain ⟨c, rest, rfl⟩ := List.exists_cons_of_ne_nil hsome
    exact List.dropWhile_cons_of_neg (by simpa using hfirst)
  -- those behind go as well, as they are in front of the reversed text
  have hdropRight : (core ++ after).rdropWhile isBlank = core := by
    unfold List.rdropWhile
    rw [List.reverse_append, List.dropWhile_append_of_pos fun c hc =>
      hafter c (List.mem_reverse.mp hc)]
    exact List.rdropWhile_eq_self_iff.mpr fun _ => by rw [hlast]; exact Bool.false_ne_true
  rw [trim_eq, hdrop, hdropRight]

theorem isBlank_of_isDigit (h : c.isDigit = true) : isBlank c = false := by
  -- digits are one range of characters, in which there is no blank
  have hrange : 48 ≤ c.toNat ∧ c.toNat ≤ 57 := by
    simpa [Char.isDigit, UInt32.le_iff_toNat_le] using h
  unfold isBlank
  simp only [Bool.or_eq_false_iff, Bool.and_eq_false_iff, decide_eq_false_iff_not,
    beq_eq_false_iff_ne]
  omega

/-! ### Readers -/

/-- A numeral neither starts nor ends with a blank. -/
theorem Numeral.ends (h : Numeral cs i) :
    ∃ hsome : cs ≠ [], isBlank (cs.head hsome) = false ∧ isBlank (cs.getLast hsome) = false := by
  obtain @⟨sign, digits, factor, hsign, hsome, hdigits⟩ := h
  -- the last character is a digit, and the first one is a sign or a digit
  have hlast : isBlank ((sign ++ digits).getLast (by simp [hsome])) = false := by
    rw [List.getLast_append_of_ne_nil _ hsome]
    exact isBlank_of_isDigit (hdigits _ (List.getLast_mem hsome))
  refine ⟨_, ?_, hlast⟩
  cases hsign with
  | absent => exact isBlank_of_isDigit (hdigits _ (List.head_mem hsome))
  | plus => rfl
  | minus => rfl

theorem splitSign_of_digits (hdigits : ∀ c ∈ ds, c.isDigit = true) :
    splitSign ds = (false, ds) := by
  -- neither sign is a digit
  unfold splitSign
  split
  · exact absurd (hdigits '-' List.mem_cons_self) (by decide)
  · exact absurd (hdigits '+' List.mem_cons_self) (by decide)
  · rfl

/-- What is split off is a sign. -/
theorem splitSign_eq {negative : Bool} (h : splitSign cs = (negative, ds)) :
    ∃ sign, Signs sign (if negative then -1 else 1) ∧ cs = sign ++ ds := by
  unfold splitSign at h
  split at h <;> obtain ⟨rfl, rfl⟩ := Prod.mk.inj h
  · exact ⟨_, .minus, rfl⟩
  · exact ⟨_, .plus, rfl⟩
  · exact ⟨_, .absent, rfl⟩

theorem readInt?_eq_some : readInt? cs = some i ↔ Numeral cs i := by
  constructor
  · intro h
    -- what is read after the sign is a number, and with the sign it is a numeral
    rcases hsplit : splitSign cs with ⟨negative, digits⟩
    obtain ⟨sign, hsign, rfl⟩ := splitSign_eq hsplit
    simp only [readInt?, hsplit, Option.map_eq_some_iff] at h
    obtain ⟨_, hread, rfl⟩ := h
    obtain ⟨n, hn, hcast⟩ := Option.bind_eq_some_iff.mp hread
    obtain rfl := Option.some.inj hcast
    obtain ⟨hsome, hdigits, rfl⟩ := readNat?_eq_some.mp hn
    have hnumeral := Numeral.intro hsign hsome hdigits
    cases negative with
    | false => simpa using hnumeral
    | true => simpa using hnumeral
  · -- a numeral is split where its sign ends
    rintro @⟨sign, digits, factor, hsign, hsome, hdigits⟩
    have hread := readNat?_eq_some.mpr ⟨hsome, hdigits, rfl⟩
    cases hsign with
    | absent => simp [readInt?, splitSign_of_digits hdigits, hread]
    | plus => simp [readInt?, splitSign, hread]
    | minus => simp [readInt?, splitSign, hread]

/-- **The reader of integers.** With blanks around a number it reads exactly what is spelled. -/
theorem readInt?_trim : readInt? (trim cs) = some i ↔ Spells cs i := by
  rw [readInt?_eq_some]
  constructor
  · intro h
    -- whatever has been trimmed off is blank
    obtain ⟨before, after, hbefore, hafter, hcs⟩ := exists_append_trim cs
    rw [hcs]
    exact .intro hbefore h hafter
  · rintro @⟨before, numeral, after, i, hbefore, hnumeral, hafter⟩
    obtain ⟨hsome, hfirst, hlast⟩ := hnumeral.ends
    rwa [trim_append hbefore hafter hsome hfirst hlast]

theorem Spells.unique {j : Int} (h : Spells cs i) (h' : Spells cs j) : i = j :=
  Option.some.inj ((readInt?_trim.mpr h).symm.trans (readInt?_trim.mpr h'))

end DeltaCircuit.Text
