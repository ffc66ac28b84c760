import AtomicCss.Proofs.Token.Boundary
/-!
# Texts that differ in their gaps

Two texts with the same tokens may differ in their gaps. Where a gap counts and where it does not is up
to the reader of the tokens: `Lexeme.GapsAgree` leaves it open which boundaries are loose. Reading by
text alone leaves the kind of a token open in one case only (`alike_of_reads`).
-/

namespace AtomicCss

open Token (Reads Ends IsCutShort)

/-! ## Boundaries -/

/-- That two texts have gaps at the same boundaries between tokens, except for those that are loose. A
boundary is given by all tokens in front of it, the last one of them, and the one behind it. -/
def Lexeme.GapsAgree (loose : List Token → Token → Token → Bool) (a b : List Lexeme) : Prop :=
  ∀ i < a.length, ∀ before ∈ a[i]?, ∀ after ∈ a[i + 1]?, ∀ other ∈ b[i + 1]?,
    loose ((a.take (i + 1)).map (·.token)) before.token after.token = false →
      (after.gap = [] ↔ other.gap = [])

section Boundaries

variable {loose : List Token → Token → Token → Bool} {x y x' y' : Lexeme} {a b : List Lexeme}

instance : Decidable (Lexeme.GapsAgree loose a b) :=
  inferInstanceAs (Decidable (∀ i < a.length, ∀ before ∈ a[i]?, ∀ after ∈ a[i + 1]?,
    ∀ other ∈ b[i + 1]?, loose ((a.take (i + 1)).map (·.token)) before.token after.token = false →
      (after.gap = [] ↔ other.gap = [])))

/-- The first boundary, and the others behind the first token. -/
theorem Lexeme.gapsAgree_cons_iff :
    GapsAgree loose (x :: y :: a) (x' :: y' :: b) ↔
      (loose [x.token] x.token y.token = false → (y.gap = [] ↔ y'.gap = [])) ∧
        GapsAgree (fun front => loose (x.token :: front)) (y :: a) (y' :: b) := by
  constructor
  · intro h
    refine ⟨h 0 (by simp) x rfl y rfl y' rfl, ?_⟩
    intro i hi before hbefore after hafter other hother
    exact h (i + 1) (by simpa using hi) before hbefore after hafter other hother
  · rintro ⟨hfirst, hrest⟩ i hi before hbefore after hafter other hother
    cases i with
    | zero =>
      obtain rfl := Option.some.inj hbefore
      obtain rfl := Option.some.inj hafter
      obtain rfl := Option.some.inj hother
      exact hfirst
    | succ i => exact hrest i (by simpa using hi) before hbefore after hafter other hother

/-- A single token has no boundary. -/
theorem Lexeme.gapsAgree_singleton : GapsAgree loose [x] b := by
  intro i _ before _ after hafter
  contradiction

end Boundaries

/-! ## Tokens of the same text -/

namespace Token

/-- Tokens of one text: the same token, or a number that was cut short and the dimension that it is
when it stands alone. -/
def Alike (a b : Token) : Prop :=
  a = b ∨ IsCutShort a ∧ b = ⟨.dimension, a.text⟩ ∨ IsCutShort b ∧ a = ⟨.dimension, b.text⟩

variable {a b : Token}

theorem Alike.eq_or_numeric (h : Alike a b) : a = b ∨
    (a.kind = .number ∨ a.kind = .dimension) ∧ (b.kind = .number ∨ b.kind = .dimension) := by
  rcases h with rfl | ⟨⟨_, _, rfl, -⟩, rfl⟩ | ⟨⟨_, _, rfl, -⟩, rfl⟩
  · exact .inl rfl
  · exact .inr ⟨.inl rfl, .inr rfl⟩
  · exact .inr ⟨.inr rfl, .inl rfl⟩

theorem Alike.text_eq (h : Alike a b) : a.text = b.text := by
  rcases h with rfl | ⟨-, rfl⟩ | ⟨-, rfl⟩ <;> rfl

/-- Tokens of one text belong to the same kinds that are no numbers. -/
theorem Alike.kind_eq_iff (h : Alike a b) {kind : Kind} (hnumber : kind ≠ .number)
    (hdimension : kind ≠ .dimension) : a.kind = kind ↔ b.kind = kind := by
  rcases h.eq_or_numeric with rfl | ⟨ha, hb⟩
  · rfl
  · constructor
    · rintro rfl
      rcases ha with ha | ha <;> contradiction
    · rintro rfl
      rcases hb with hb | hb <;> contradiction

end Token

/-- Texts that are read as the same texts of tokens are read as tokens that are alike. -/
theorem alike_of_reads {cs cs' : List Char} {a b : List Lexeme} (h : Reads cs a) (h' : Reads cs' b)
    (htexts : a.map (·.token.text) = b.map (·.token.text)) :
    List.Forall₂ (fun x y => Token.Alike x.token y.token) a b := by
  induction h generalizing cs' b with
  | nil =>
    cases h' with
    | nil => exact .nil
    | cons => contradiction
  | @cons gap rest token lexemes _ hends _ ih =>
    cases h' with
    | nil => contradiction
    | cons _ hends' hrest' =>
      obtain ⟨htext, hmore⟩ := List.cons.inj htexts
      exact .cons (hends.eq_or_cutShort hends' htext) (ih hrest' hmore)

end AtomicCss
