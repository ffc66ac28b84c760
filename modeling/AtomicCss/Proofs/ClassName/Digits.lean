import AtomicCss.Keyframes.Basic
import AtomicCss.Proofs.Declaration.Identity
import Mathlib.Algebra.Group.Nat.Defs
/-!
# The digits of a name

The digits of a number in base 36 read back as the number (`ofBase36_base36`). So names behind one
mark tell checksums apart (`checksum_eq_of_ofText`), names that are made from one text tell marks
apart (`mark_eq_of_ofText`), and no class is named like a block of keyframes
(`className_ne_block_name`). A checksum has at most seven digits, of which the first is no zero unless
the checksum is (`isBase36_base36`).
-/

namespace AtomicCss

namespace ClassName

/-- The number that a digit stands for. -/
def digitValue (c : Char) : Nat :=
  if c.isDigit then c.toNat - '0'.toNat else c.toNat - 'a'.toNat + 10

/-- The number that digits stand for in base 36. -/
def ofBase36 (digits : List Char) : Nat :=
  digits.foldl (fun n c => n * 36 + digitValue c) 0

theorem digitValue_digitChar : ∀ d < 36, digitValue (digitChar d) = d := by
  decide

theorem digitChar_ne_B : ∀ d < 36, digitChar d ≠ 'B' := by
  decide

/-! ## Digits of a number -/

theorem base36Onto_of_lt {n : Nat} (h : n < 36) (rest : List Char) :
    base36Onto n rest = digitChar n :: rest := by
  rw [base36Onto, if_pos h]

/-- The last digit is put in front of the rest, and the others in front of it. -/
theorem base36Onto_of_le {n : Nat} (h : 36 ≤ n) (rest : List Char) :
    base36Onto n rest = base36Onto (n / 36) (digitChar (n % 36) :: rest) := by
  rw [base36Onto, if_neg (by omega)]

/-- Digits are put in front of whatever is there. -/
theorem base36Onto_eq_append (n : Nat) (rest : List Char) :
    base36Onto n rest = base36 n ++ rest := by
  induction n using Nat.strongRecOn generalizing rest with
  | ind n ih =>
    rw [base36]
    by_cases h : n < 36
    · rw [base36Onto_of_lt h, base36Onto_of_lt h]
      rfl
    · have hlt : n / 36 < n := by omega
      rw [base36Onto_of_le (by omega) rest, base36Onto_of_le (by omega) [], ih _ hlt, ih _ hlt,
        List.append_assoc]
      rfl

theorem base36_of_lt {n : Nat} (h : n < 36) : base36 n = [digitChar n] :=
  base36Onto_of_lt h []

/-- The last digit stands for the remainder, those in front of it for the quotient. -/
theorem base36_of_le {n : Nat} (h : 36 ≤ n) :
    base36 n = base36 (n / 36) ++ [digitChar (n % 36)] := by
  rw [base36, base36Onto_of_le h, base36Onto_eq_append]

/-- The digits of a number are read as the number. -/
theorem ofBase36_base36 (n : Nat) : ofBase36 (base36 n) = n := by
  induction n using Nat.strongRecOn with
  | ind n ih =>
    by_cases h : n < 36
    · rw [base36_of_lt h, ofBase36, List.foldl_cons, List.foldl_nil, digitValue_digitChar n h]
      omega
    · have hdigit : digitValue (digitChar (n % 36)) = n % 36 :=
        digitValue_digitChar (n % 36) (Nat.mod_lt n (by omega))
      have hfront := ih (n / 36) (by omega)
      rw [ofBase36] at hfront
      rw [base36_of_le (by omega), ofBase36, List.foldl_append, hfront, List.foldl_cons,
        List.foldl_nil, hdigit]
      omega

/-- Numbers with the same digits are equal. -/
theorem base36_injective {a b : Nat} (h : base36 a = base36 b) : a = b := by
  rw [← ofBase36_base36 a, h, ofBase36_base36]

/-- The last digit is what is left over. -/
theorem getLast?_base36 (n : Nat) : (base36 n).getLast? = some (digitChar (n % 36)) := by
  by_cases h : n < 36
  · rw [base36_of_lt h, Nat.mod_eq_of_lt h]
    rfl
  · rw [base36_of_le (by omega), List.getLast?_append]
    rfl

theorem isDigit_or_isLower_digitChar : ∀ d < 36, (digitChar d).isDigit ∨ (digitChar d).isLower := by
  decide

/-- The digits are digits and small letters. -/
theorem isDigit_or_isLower_of_mem_base36 (n : Nat) :
    ∀ c ∈ base36 n, c.isDigit ∨ c.isLower := by
  induction n using Nat.strongRecOn with
  | ind n ih =>
    by_cases h : n < 36
    · rw [base36_of_lt h]
      exact List.forall_mem_singleton.2 (isDigit_or_isLower_digitChar n h)
    · have hlast := isDigit_or_isLower_digitChar (n % 36) (Nat.mod_lt n (by omega))
      rw [base36_of_le (by omega), List.forall_mem_append]
      exact ⟨ih (n / 36) (by omega), List.forall_mem_singleton.2 hlast⟩

theorem base36_ne_nil (n : Nat) : base36 n ≠ [] := by
  intro hnil
  have hlast := getLast?_base36 n
  rw [hnil] at hlast
  contradiction

/-- Only the number zero has a zero in front. -/
theorem head?_base36_eq_zero_iff (n : Nat) : (base36 n).head? = some '0' ↔ n = 0 := by
  induction n using Nat.strongRecOn with
  | ind n ih =>
    by_cases h : n < 36
    · rw [base36_of_lt h, List.head?_cons, Option.some.injEq]
      constructor
      · intro hzero
        rw [← digitValue_digitChar n h, hzero]
        rfl
      · rintro rfl
        rfl
    · have hfront := List.isSome_head?.2 (base36_ne_nil (n / 36))
      rw [base36_of_le (by omega), List.head?_append, Option.or_of_isSome hfront,
        ih (n / 36) (by omega)]
      omega

/-- A number below a power of 36 has at most as many digits as the exponent says. -/
theorem length_base36_le {n k : Nat} (h : n < 36 ^ (k + 1)) : (base36 n).length ≤ k + 1 := by
  induction k generalizing n with
  | zero =>
    rw [base36_of_lt (by simpa using h)]
    exact Nat.le_refl 1
  | succ k ih =>
    by_cases hlt : n < 36
    · rw [base36_of_lt hlt]
      exact Nat.le_add_left 1 (k + 1)
    · have hquotient : n / 36 < 36 ^ (k + 1) := by
        rw [pow_succ] at h
        exact Nat.div_lt_of_lt_mul (by rwa [Nat.mul_comm])
      rw [base36_of_le (by omega), List.length_append]
      exact Nat.succ_le_succ (ih hquotient)

/-- The digits of a number of 32 bits: at most seven, and none of them is a zero that could be left out. -/
structure IsBase36 (digits : List Char) (value : UInt32) : Prop where
  ne_nil : digits ≠ []
  isDigit_or_isLower : ∀ c ∈ digits, c.isDigit ∨ c.isLower
  head?_eq_zero_iff : digits.head? = some '0' ↔ value = 0
  length_le : digits.length ≤ 7
  ofBase36_eq : ofBase36 digits = value.toNat

/-- A checksum is written in base 36. -/
theorem isBase36_base36 (value : UInt32) : IsBase36 (base36 value.toNat) value where
  ne_nil := base36_ne_nil _
  isDigit_or_isLower := isDigit_or_isLower_of_mem_base36 _
  head?_eq_zero_iff := by
    rw [head?_base36_eq_zero_iff, ← UInt32.toNat_inj]
    rfl
  length_le := by
    have hbits : value.toNat < 36 ^ 7 := Nat.lt_trans value.toNat_lt (by decide)
    exact length_base36_le hbits
  ofBase36_eq := ofBase36_base36 _

/-! ## Names -/

/-- Behind one mark, names of texts with different checksums differ. -/
theorem checksum_eq_of_ofText {mark text other : String} (h : ofText mark text = ofText mark other) :
    checksum text = checksum other := by
  have hlist := congrArg String.toList h
  rw [toList_ofText, toList_ofText] at hlist
  have hdigits := base36_injective (List.append_cancel_left hlist)
  exact UInt32.toNat_inj.1 hdigits

/-- Names of the same text tell their prefixes. -/
theorem mark_eq_of_ofText {mark other text : String} (h : ofText mark text = ofText other text) :
    mark = other := by
  have hlist := congrArg String.toList h
  rw [toList_ofText, toList_ofText] at hlist
  exact String.toList_injective (List.append_cancel_right hlist)

/-- The last character of a name is a digit. -/
theorem getLast?_ofText (mark text : String) :
    (ofText mark text).toList.getLast? = some (digitChar ((checksum text).toNat % 36)) := by
  rw [toList_ofText, List.getLast?_append, getLast?_base36]
  rfl

end ClassName

/-- No class has the name of a block of keyframes, whatever the marks are. -/
theorem Declaration.className_ne_block_name (d : Declaration) (mark : String)
    (block : Keyframes.Block) (other : String) : d.className mark ≠ block.name other := by
  intro h
  have hlist := congrArg (fun name => name.toList.getLast?) h
  simp only [className, Keyframes.Block.name, ClassName.getLast?_ofText, String.toList_append,
    List.getLast?_append] at hlist
  have hlast : ClassName.digitChar ((ClassName.checksum d.canonical).toNat % 36) = 'B' :=
    Option.some.inj hlist
  exact ClassName.digitChar_ne_B _ (Nat.mod_lt _ (by decide)) hlast

/-- A checksum is read back from its digits, so that behind one mark names are equal just if the checksums
are, and the names of blocks are never those of classes. -/
theorem generated_names_decode :
    (∀ value : UInt32, ClassName.IsBase36 (ClassName.base36 value.toNat) value) ∧
      (∀ mark text other : String, ClassName.ofText mark text = ClassName.ofText mark other ↔
        ClassName.checksum text = ClassName.checksum other) ∧
      ∀ (block : Keyframes.Block) (d : Declaration) (mark other : String),
        block.name mark ≠ d.className other := by
  refine ⟨ClassName.isBase36_base36, fun mark text other => ?_, fun block d mark other heq => ?_⟩
  · constructor
    · exact ClassName.checksum_eq_of_ofText
    · intro hchecksum
      rw [ClassName.ofText, hchecksum, ClassName.ofText]
  · exact d.className_ne_block_name other block mark heq.symm

end AtomicCss
