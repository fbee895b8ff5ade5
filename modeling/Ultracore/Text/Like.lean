-- SUMMARY: Patterns with wildcards and an escape symbol, and literal texts inside them.
import Mathlib.Data.List.Infix
import Mathlib.Tactic.Common

/-!
# Patterns

A pattern is a text in which one symbol stands for any text, one for any symbol, and one takes the
meaning from the symbol behind it. A pattern that ends in the escape symbol is malformed. A text
whose signs are escaped matches only itself.

Matching may be up to a folding of symbols, which is applied to the pattern and to the text before
they are compared. It leaves the three signs alone.
-/

namespace Text.Like

variable {α : Type}

/-! ## Matching -/

/-- The symbols with a meaning in a pattern. -/
structure Signs (α : Type) where
  many : α
  one : α
  escape : α
  many_ne_one : many ≠ one
  many_ne_escape : many ≠ escape
  one_ne_escape : one ≠ escape

inductive Token (α : Type) where
  | many
  | one
  | lit (c : α)
deriving DecidableEq

namespace Signs

variable [DecidableEq α] (w : Signs α)

def isSign (c : α) : Bool := c = w.many ∨ c = w.one ∨ c = w.escape

/-- A symbol that is not escaped. -/
def token (c : α) : Token α :=
  if c = w.many then .many else if c = w.one then .one else .lit c

/-- The tokens of a pattern, if it is well formed. -/
def tokens : List α → Option (List (Token α))
  | [] => some []
  | [c] => if c = w.escape then none else some [w.token c]
  | c :: d :: p =>
    if c = w.escape then (tokens p).map (.lit d :: ·) else (tokens (d :: p)).map (w.token c :: ·)

end Signs

/-- Whether a text matches. -/
def accepts [DecidableEq α] : List (Token α) → List α → Bool
  | [], s => s.isEmpty
  | .many :: ts, s => s.tails.any (accepts ts)
  | .one :: ts, _ :: s => accepts ts s
  | .one :: _, [] => false
  | .lit c :: ts, d :: s => c = d && accepts ts s
  | .lit _ :: _, [] => false

/-! ## Folding -/

/-- A folding of symbols, such as that to lower case. -/
structure Folding (w : Signs α) where
  fold : α → List α
  many : fold w.many = [w.many]
  one : fold w.one = [w.one]
  escape : fold w.escape = [w.escape]
  avoids : ∀ c, c ≠ w.many → c ≠ w.one → c ≠ w.escape →
    ∀ d ∈ fold c, d ≠ w.many ∧ d ≠ w.one ∧ d ≠ w.escape

namespace Folding

variable {w : Signs α}

/-- No folding at all. -/
def exact : Folding w where
  fold c := [c]
  many := rfl
  one := rfl
  escape := rfl
  avoids c h₁ h₂ h₃ d hd := by
    obtain rfl := List.mem_singleton.mp hd
    exact ⟨h₁, h₂, h₃⟩

/-- A text folded. -/
def text (f : Folding w) (s : List α) : List α := s.flatMap f.fold

@[simp] theorem text_append (f : Folding w) (s t : List α) : f.text (s ++ t) = f.text s ++ f.text t :=
  List.flatMap_append

theorem text_many (f : Folding w) : f.text [w.many] = [w.many] := by
  simp [text, f.many]

end Folding

section
variable [DecidableEq α] {w : Signs α}

/-- Whether a text matches a pattern, unless the pattern is malformed. -/
def like (f : Folding w) (pattern s : List α) : Option Bool :=
  (w.tokens (f.text pattern)).map fun ts => accepts ts (f.text s)

/-! ## Literal texts -/

/-- A text with its signs escaped. -/
def Signs.escaped (w : Signs α) (s : List α) : List α :=
  s.flatMap fun c => if w.isSign c then [w.escape, c] else [c]

@[simp] theorem Signs.escaped_cons (c : α) (s : List α) :
    w.escaped (c :: s) = (if w.isSign c then [w.escape, c] else [c]) ++ w.escaped s :=
  List.flatMap_cons

theorem Signs.isSign_iff {c : α} : w.isSign c = true ↔ c = w.many ∨ c = w.one ∨ c = w.escape := by
  simp [isSign]

theorem Signs.token_of_not_sign {c : α} (h : ¬w.isSign c) : w.token c = .lit c := by
  rw [isSign_iff, not_or, not_or] at h
  rw [token, if_neg h.1, if_neg h.2.1]

theorem Signs.tokens_escape (c : α) (p : List α) :
    w.tokens (w.escape :: c :: p) = (w.tokens p).map (.lit c :: ·) := by
  rw [tokens, if_pos rfl]

theorem Signs.tokens_cons {c : α} (hc : c ≠ w.escape) (p : List α) :
    w.tokens (c :: p) = (w.tokens p).map (w.token c :: ·) := by
  cases p with
  | nil => simp [tokens, hc]
  | cons => rw [tokens, if_neg hc]

/-- An escaped text is read as itself, whatever comes behind it. -/
theorem Signs.tokens_escaped (q rest : List α) :
    w.tokens (w.escaped q ++ rest) = (w.tokens rest).map (q.map .lit ++ ·) := by
  induction q with
  | nil => simp [escaped]
  | cons c q ih =>
    rw [escaped_cons, List.append_assoc]
    by_cases hc : w.isSign c = true
    · rw [if_pos hc, List.cons_append, List.cons_append, List.nil_append, tokens_escape, ih]
      simp [Function.comp_def]
    · have hne : c ≠ w.escape := fun h => hc (isSign_iff.mpr (.inr (.inr h)))
      rw [if_neg hc, List.singleton_append, tokens_cons hne, ih, token_of_not_sign hc]
      simp [Function.comp_def]

theorem accepts_lits (q : List α) (ts : List (Token α)) (s : List α) :
    accepts (q.map .lit ++ ts) s = true ↔ ∃ t, s = q ++ t ∧ accepts ts t = true := by
  induction q generalizing s with
  | nil => simp
  | cons c q ih =>
    cases s with
    | nil => simp [accepts]
    | cons =>
      simp only [List.map_cons, List.cons_append, accepts, Bool.and_eq_true,
        decide_eq_true_eq, ih, List.cons.injEq]
      constructor
      · rintro ⟨rfl, t, rfl, ht⟩
        exact ⟨t, ⟨rfl, rfl⟩, ht⟩
      · rintro ⟨t, ⟨rfl, rfl⟩, ht⟩
        exact ⟨rfl, t, rfl, ht⟩

theorem accepts_many (ts : List (Token α)) (s : List α) :
    accepts (.many :: ts) s = true ↔ ∃ a t, s = a ++ t ∧ accepts ts t = true := by
  simp only [accepts, List.any_eq_true, List.mem_tails]
  constructor
  · rintro ⟨t, ⟨a, rfl⟩, ht⟩
    exact ⟨a, t, rfl, ht⟩
  · rintro ⟨a, t, rfl, ht⟩
    exact ⟨t, ⟨a, rfl⟩, ht⟩

/-- Anything may follow. -/
theorem accepts_rest (s : List α) : accepts [Token.many] s = true :=
  (accepts_many [] s).mpr ⟨s, [], by simp, rfl⟩

/-- Escaping and folding may be exchanged. -/
theorem Folding.text_escaped (f : Folding w) (q : List α) :
    f.text (w.escaped q) = w.escaped (f.text q) := by
  have hsymbol (c : α) : f.text (if w.isSign c then [w.escape, c] else [c]) =
      w.escaped (f.fold c) := by
    by_cases hc : w.isSign c = true
    · have hfixed : f.fold c = [c] := by
        rcases Signs.isSign_iff.mp hc with rfl | rfl | rfl
        · exact f.many
        · exact f.one
        · exact f.escape
      simp [hc, hfixed, text, f.escape, Signs.escaped]
    · rw [Signs.isSign_iff, not_or, not_or] at hc
      have havoids := f.avoids c hc.1 hc.2.1 hc.2.2
      have hplain : w.escaped (f.fold c) = f.fold c := by
        refine (List.flatMap_congr fun d hd => ?_).trans (List.flatMap_singleton' (f.fold c))
        have hd := havoids d hd
        rw [if_neg]
        rw [Signs.isSign_iff]
        rintro (h | h | h)
        · exact hd.1 h
        · exact hd.2.1 h
        · exact hd.2.2 h
      simp [hc, hplain, text, Signs.isSign]
  simp only [text, Signs.escaped, List.flatMap_assoc] at hsymbol ⊢
  exact List.flatMap_congr fun c _ => hsymbol c

/-- A wildcard that is not escaped. -/
theorem Signs.tokens_many (p : List α) :
    w.tokens (w.many :: p) = (w.tokens p).map (.many :: ·) := by
  rw [tokens_cons w.many_ne_escape, token, if_pos rfl]

/-- An escaped text before a wildcard matches the texts that begin with it. -/
theorem like_startsWith (f : Folding w) (q s : List α) :
    like f (w.escaped q ++ [w.many]) s = some (decide (f.text q <+: f.text s)) := by
  have htokens : w.tokens (f.text (w.escaped q ++ [w.many])) =
      some ((f.text q).map .lit ++ [.many]) := by
    rw [Folding.text_append, f.text_escaped, f.text_many, Signs.tokens_escaped, Signs.tokens_many]
    rfl
  have haccepts : accepts ((f.text q).map .lit ++ [.many]) (f.text s) = true ↔
      f.text q <+: f.text s := by
    rw [accepts_lits]
    constructor
    · rintro ⟨t, ht, -⟩
      exact ⟨t, ht.symm⟩
    · rintro ⟨t, ht⟩
      exact ⟨t, ht.symm, accepts_rest t⟩
  rw [like, htokens, Option.map_some, Option.some.injEq, Bool.eq_iff_iff, haccepts,
    decide_eq_true_eq]

/-- An escaped text between two wildcards matches the texts that contain it. -/
theorem like_contains (f : Folding w) (q s : List α) :
    like f ([w.many] ++ w.escaped q ++ [w.many]) s = some (decide (f.text q <:+: f.text s)) := by
  have htokens : w.tokens (f.text ([w.many] ++ w.escaped q ++ [w.many])) =
      some (.many :: ((f.text q).map .lit ++ [.many])) := by
    rw [List.append_assoc, Folding.text_append, Folding.text_append, f.text_escaped, f.text_many,
      List.singleton_append, Signs.tokens_many, Signs.tokens_escaped, Signs.tokens_many]
    rfl
  have haccepts : accepts (.many :: ((f.text q).map .lit ++ [.many])) (f.text s) = true ↔
      f.text q <:+: f.text s := by
    rw [accepts_many]
    simp only [accepts_lits]
    constructor
    · rintro ⟨a, t, hs, b, rfl, -⟩
      exact ⟨a, b, by rw [hs, List.append_assoc]⟩
    · rintro ⟨a, b, hs⟩
      exact ⟨a, f.text q ++ b, by rw [← hs, List.append_assoc], b, rfl, accepts_rest b⟩
  rw [like, htokens, Option.map_some, Option.some.injEq, Bool.eq_iff_iff, haccepts,
    decide_eq_true_eq]

end

end Text.Like
