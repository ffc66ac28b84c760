import AtomicCss.Json.Reader
/-!
# Reading objects of texts

Texts without escapes between quotes, and objects of what is read already, written without blanks,
are read for what they are (`isTextOf_string`, `isTextOf_object`). The rules follow the way a text is
put together, and `parse_of_isTextOf` ends them.
-/

namespace AtomicCss.Json

/-- A reader finds a value in front of a text, and leaves the rest. -/
def Finds {α : Type} {cs : List Char} (result : Except Nat (α × Shorter cs)) (value : α)
    (rest : List Char) : Prop :=
  ∃ h, result = .ok (value, ⟨rest, h⟩)

/-- A text is read as a document, whatever stands behind it. -/
def IsTextOf (text : List Char) (document : Document) : Prop :=
  ∀ rest, Finds (readValue (text ++ rest)) document rest

/-! ## Strings -/

/-- A character that stands for itself between quotes. -/
def isPlain (c : Char) : Bool :=
  decide (0x20 ≤ c.toNat) && c != '"' && c != '\\'

/-- A plain character of a string stands for itself. -/
theorem finds_plain {c : Char} {cs rest : List Char} {pieces : List Piece} (hc : isPlain c = true)
    (h : Finds (readString cs) pieces rest) :
    Finds (readString (c :: cs)) (.char c :: pieces) rest := by
  simp only [isPlain, Bool.and_eq_true, decide_eq_true_eq, bne_iff_ne] at hc
  rcases hc with ⟨⟨hcontrol, hquote⟩, hbackslash⟩
  rcases h with ⟨hlt, hread⟩
  refine ⟨Nat.lt_succ_of_lt hlt, ?_⟩
  simp [readString, hbackslash, hread, Nat.not_lt.2 hcontrol]

/-- Plain characters up to a quote are read as a string. -/
theorem finds_characters {cs : List Char} (h : cs.all isPlain = true) (rest : List Char) :
    Finds (readString (cs ++ '"' :: rest)) (cs.map .char) rest := by
  induction cs with
  | nil => exact ⟨Nat.lt_succ_self _, rfl⟩
  | cons c cs ih =>
    simp only [List.all_cons, Bool.and_eq_true] at h
    exact finds_plain h.1 (ih h.2)

/-- Plain characters between quotes are the text of a string. -/
theorem isTextOf_string (cs : List Char) (h : cs.all isPlain = true) :
    IsTextOf ('"' :: (cs ++ ['"'])) (.string (cs.map .char)) := by
  intro rest
  rw [List.cons_append, List.append_assoc, List.singleton_append]
  rcases finds_characters h rest with ⟨hlt, hread⟩
  refine ⟨Nat.lt_succ_of_lt hlt, ?_⟩
  rw [readValue]
  split <;> rename_i heq <;> cases heq
  · rw [hread]
  · contradiction

/-! ## Objects -/

/-- The members of an object, with its closing brace. -/
inductive AreMembers : List Char → List (List Piece × Document) → Prop
  | last (key : List Char) {text : List Char} {value : Document} (hkey : key.all isPlain = true)
      (htext : IsTextOf text value) :
      AreMembers ('"' :: (key ++ '"' :: ':' :: (text ++ ['\x7d']))) [(key.map .char, value)]
  | more (key : List Char) {text rest : List Char} {value : Document}
      {members : List (List Piece × Document)} (hkey : key.all isPlain = true)
      (htext : IsTextOf text value) (hrest : AreMembers rest members) :
      AreMembers ('"' :: (key ++ '"' :: ':' :: (text ++ ',' :: rest)))
        ((key.map .char, value) :: members)

section Members

variable {cs text rest : List Char} {key : List Piece} {value : Document}
  {members : List (List Piece × Document)}

/-- What comes behind a member: the end of its object, or more members. -/
inductive FindsBehind : List Char → List (List Piece × Document) → List Char → Prop
  | none (rest : List Char) : FindsBehind ('\x7d' :: rest) [] rest
  | more {more rest : List Char} {members : List (List Piece × Document)}
      (h : Finds (readMembers more) members rest) : FindsBehind (',' :: more) members rest

/-- A member is found with its key, its value and the members behind it. -/
theorem finds_member {behind : List Char} (hkey : Finds (readString cs) key (':' :: text))
    (hvalue : Finds (readValue text) value behind) (hbehind : FindsBehind behind members rest) :
    Finds (readMembers ('"' :: cs)) ((key, value) :: members) rest := by
  rcases hkey with ⟨hkeylt, hkey⟩
  rcases hvalue with ⟨hlt, hvalue⟩
  have hle : rest.length < behind.length := by
    cases hbehind with
    | none => exact Nat.lt_succ_self _
    | more h => exact Nat.lt_succ_of_lt h.1
  simp only [List.length_cons] at hkeylt
  refine ⟨by simp only [List.length_cons]; omega, ?_⟩
  rw [readMembers]
  split
  · rename_i heq
    cases heq
    rw [hkey]
    dsimp only
    split
    · rename_i heq
      cases heq
      rw [hvalue]
      dsimp only
      cases hbehind with
      | none =>
        split
        · rename_i heq
          cases heq
          rfl
        · rename_i heq
          cases heq
        · rename_i hne _
          exact absurd rfl (hne _)
      | more h =>
        rcases h with ⟨hmorelt, hmore⟩
        split
        · rename_i heq
          cases heq
        · rename_i heq
          cases heq
          rw [hmore]
        · rename_i hne
          exact absurd rfl (hne _)
    · rename_i hne
      exact absurd rfl (hne _)
  · rename_i hne
    exact absurd rfl (hne _)

/-- Members are found one after the other up to the brace. -/
theorem finds_members (h : AreMembers text members) (rest : List Char) :
    Finds (readMembers (text ++ rest)) members rest := by
  induction h with
  | last key hkey htext =>
    rw [List.cons_append, List.append_assoc, List.cons_append, List.cons_append,
      List.append_assoc, List.singleton_append]
    exact finds_member (finds_characters hkey _) (htext _) (.none rest)
  | more key hkey htext _ ih =>
    rw [List.cons_append, List.append_assoc, List.cons_append, List.cons_append,
      List.append_assoc, List.cons_append]
    exact finds_member (finds_characters hkey _) (htext _) (.more ih)

/-- Members behind a brace are the text of an object. -/
theorem isTextOf_object (h : AreMembers text members) :
    IsTextOf ('\x7b' :: text) (.object members) := by
  intro rest
  rcases finds_members h rest with ⟨hlt, hread⟩
  rw [List.cons_append]
  refine ⟨Nat.lt_succ_of_lt hlt, ?_⟩
  have hquote : ∃ cs, text ++ rest = '"' :: cs := by
    cases h with
    | last => exact ⟨_, rfl⟩
    | more => exact ⟨_, rfl⟩
  rw [readValue]
  split <;> rename_i heq <;> cases heq
  · -- There is a member, so the object is not empty.
    split
    · rename_i hempty
      rcases hquote with ⟨cs, hcs⟩
      rw [hcs] at hempty
      cases hempty
    · rw [hread]
  · contradiction

end Members

/-- An object that has one member, with a text. -/
theorem isTextOf_field (key cs : List Char) (hkey : key.all isPlain = true)
    (hcs : cs.all isPlain = true) :
    IsTextOf ('\x7b' :: '"' :: (key ++ '"' :: ':' :: (('"' :: (cs ++ ['"'])) ++ ['\x7d'])))
      (.object [(key.map .char, .string (cs.map .char))]) :=
  isTextOf_object (.last key hkey (isTextOf_string cs hcs))

/-- A text of one value is this value. -/
theorem parse_of_isTextOf {source : String} {text : List Char} {document : Document} {value : Json}
    (h : IsTextOf text document) (htext : source.toList = text)
    (hvalue : document.toJson? = some value) : parse source = .ok value := by
  subst htext
  have hfinds := h []
  rw [List.append_nil] at hfinds
  rcases hfinds with ⟨hlt, hread⟩
  have hdocument : Document.parse source = .ok document := by
    rw [Document.parse, hread]
    rfl
  rw [parse, hdocument]
  simp only [bind, Except.bind, hvalue]

end AtomicCss.Json
