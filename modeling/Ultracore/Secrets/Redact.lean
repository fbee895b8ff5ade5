-- SUMMARY: The redactor: no registered form survives it, and a secret goes as a whole unless a part of it was registered before it.
import Mathlib.Data.List.TakeWhile
import Ultracore.Secrets.Encodings
import Ultracore.Text.Replace

/-!
# The redactor

File `redact.go`. Registered values are kept in all their forms, in the order in which they
came, and each form is replaced in turn. A lock makes `Register` and `Redact` atomic.
-/

namespace Ultracore.Secrets

open Text

structure Redactor where
  secrets : List Bytes := []

namespace Redactor

def addForm (r : Redactor) (form : Bytes) : Redactor :=
  if form.length ≥ 6 ∧ form ∉ r.secrets then { secrets := r.secrets ++ [form] } else r

def addValue (r : Redactor) (v : Bytes) : Redactor :=
  if v.length < 6 then r else (encodings v).foldl addForm r

/-- `Register` -/
def register (r : Redactor) (values : List Bytes) : Redactor := values.foldl addValue r

/-- The redactor after a sequence of `Register` calls. -/
def after (calls : List (List Bytes)) : Redactor := calls.foldl register {}

abbrev leftBracket : UInt8 := 91

abbrev rightBracket : UInt8 := 93

/-- What stands in place of a secret. -/
def marker : Bytes := ascii "[redacted]"

/-- `Redact` -/
def redact (r : Redactor) (s : Bytes) : Bytes :=
  r.secrets.foldl (fun s secret => replaceAll secret marker s) s

end Redactor

/-- A value that some call registers and that is not too short. -/
def RegisteredValue (calls : List (List Bytes)) (v : Bytes) : Prop :=
  (∃ call ∈ calls, v ∈ call) ∧ v.length ≥ 6

/-- A form of such a value that is itself not too short. -/
def RegisteredForm (calls : List (List Bytes)) (f : Bytes) : Prop :=
  (∃ v, RegisteredValue calls v ∧ f ∈ encodings v) ∧ f.length ≥ 6

/-! ## What is registered -/

namespace Redactor

variable {r : Redactor} {f v : Bytes}

theorem mem_addForm (form : Bytes) :
    f ∈ (r.addForm form).secrets ↔ f ∈ r.secrets ∨ (f = form ∧ f.length ≥ 6) := by
  unfold addForm
  split
  · rename_i h
    simp only [List.mem_append, List.mem_singleton]
    constructor
    · rintro (hf | rfl)
      · exact .inl hf
      · exact .inr ⟨rfl, h.1⟩
    · rintro (hf | ⟨rfl, -⟩)
      · exact .inl hf
      · exact .inr rfl
  · rename_i h
    constructor
    · exact .inl
    · rintro (hf | ⟨rfl, hlen⟩)
      · exact hf
      · by_contra hf
        exact h ⟨hlen, hf⟩

theorem mem_foldl_addForm (forms : List Bytes) :
    f ∈ (forms.foldl addForm r).secrets ↔ f ∈ r.secrets ∨ (f ∈ forms ∧ f.length ≥ 6) := by
  induction forms generalizing r with
  | nil => simp
  | cons form forms ih =>
    rw [List.foldl_cons, ih, mem_addForm]
    simp only [List.mem_cons]
    tauto

theorem mem_addValue (v : Bytes) : f ∈ (r.addValue v).secrets ↔
    f ∈ r.secrets ∨ (v.length ≥ 6 ∧ f ∈ encodings v ∧ f.length ≥ 6) := by
  unfold addValue
  split
  · rename_i h
    exact ⟨.inl, fun hf => hf.resolve_right fun hv => Nat.not_le_of_lt h hv.1⟩
  · rename_i h
    rw [mem_foldl_addForm]
    simp [Nat.le_of_not_lt h]

theorem mem_register (values : List Bytes) : f ∈ (r.register values).secrets ↔
    f ∈ r.secrets ∨ ∃ v ∈ values, v.length ≥ 6 ∧ f ∈ encodings v ∧ f.length ≥ 6 := by
  induction values generalizing r with
  | nil => simp [register]
  | cons v values ih =>
    rw [register, List.foldl_cons]
    refine Iff.trans ih ?_
    rw [mem_addValue]
    simp only [List.mem_cons, exists_eq_or_imp, or_assoc]

/-- The redactor holds the registered forms. -/
theorem mem_after (calls : List (List Bytes)) :
    f ∈ (after calls).secrets ↔ RegisteredForm calls f := by
  have hfold : ∀ r : Redactor, f ∈ (calls.foldl register r).secrets ↔
      f ∈ r.secrets ∨ ∃ call ∈ calls, ∃ v ∈ call, v.length ≥ 6 ∧ f ∈ encodings v ∧ f.length ≥ 6 := by
    induction calls with
    | nil => simp
    | cons call calls ih =>
      intro r
      rw [List.foldl_cons, ih, mem_register]
      simp only [List.mem_cons, exists_eq_or_imp, or_assoc]
  rw [after, hfold]
  constructor
  · rintro (h | ⟨call, hcall, v, hv, hlen, hf, hflen⟩)
    · cases h
    · exact ⟨⟨v, ⟨⟨call, hcall, hv⟩, hlen⟩, hf⟩, hflen⟩
  · rintro ⟨⟨v, ⟨⟨call, hcall, hv⟩, hlen⟩, hf⟩, hflen⟩
    exact .inr ⟨call, hcall, v, hv, hlen, hf, hflen⟩

/-! ## Nothing registered is left -/

/-- The brackets delimit the marker. -/
theorem marker_eq : marker = leftBracket :: (ascii "redacted" ++ [rightBracket]) := by decide

/-- A form without brackets that is no part of the word is in no text from which it was
    replaced, and no later replacement brings it back. -/
theorem not_infix_redacts {secrets : List Bytes} (hl : leftBracket ∉ f) (hr : rightBracket ∉ f)
    (hword : ¬f <:+: ascii "redacted") (hlen : ∀ secret ∈ secrets, secret ≠ []) {s : Bytes}
    (h : f ∈ secrets ∨ ¬f <:+: s) :
    ¬f <:+: secrets.foldl (fun s secret => replaceAll secret marker s) s := by
  induction secrets generalizing s with
  | nil => simpa using h
  | cons secret secrets ih =>
    rw [List.foldl_cons]
    refine ih (fun x hx => hlen x (by simp [hx])) ?_
    by_cases hf : f ∈ secrets
    · exact .inl hf
    refine .inr fun hin => ?_
    rw [marker_eq] at hin
    rcases infix_replaceAll hl hr (hlen secret (by simp)) hin with hin | ⟨p, hp, hold, hfp⟩
    · exact hword hin
    rcases h with h | h
    · rcases List.mem_cons.mp h with rfl | h
      · exact hold hfp
      · exact hf h
    · exact h (hfp.trans hp)

theorem secrets_ne_nil {calls : List (List Bytes)} : ∀ secret ∈ (after calls).secrets, secret ≠ [] := by
  rintro secret h rfl
  have := ((mem_after calls).mp h).2
  simp at this

/-- A registered form occurs in what `Redact` returns only if it has a bracket in it or is a
    part of the word `redacted`. -/
theorem redact_complete (calls : List (List Bytes)) (s f : Bytes) (hf : RegisteredForm calls f)
    (h : f <:+: (after calls).redact s) :
    leftBracket ∈ f ∨ rightBracket ∈ f ∨ f <:+: ascii "redacted" := by
  by_contra hno
  simp only [not_or] at hno
  obtain ⟨hl, hr, hword⟩ := hno
  exact not_infix_redacts hl hr hword secrets_ne_nil (.inl ((mem_after calls).mpr hf)) h

/-- A secret that is a part of the word is still there. -/
theorem redact_complete_word :
    RegisteredForm [[ascii "redact"]] (ascii "redact") ∧
      ascii "redact" <:+: (after [[ascii "redact"]]).redact (ascii "a redact b") ∧
      (leftBracket ∈ ascii "redact" ∨ rightBracket ∈ ascii "redact" ∨ ascii "redact" <:+: ascii "redacted") := by
  have hform : RegisteredForm [[ascii "redact"]] (ascii "redact") :=
    (mem_after _).mp (by decide +kernel)
  have hin : ascii "redact" <:+: (after [[ascii "redact"]]).redact (ascii "a redact b") := by
    decide +kernel
  exact ⟨hform, hin, redact_complete _ _ _ hform hin⟩

/-! ## A secret goes as a whole -/

/-- Every occurrence of `f` in `x ++ v ++ y` lies inside `v`. -/
def Within (x v y f : Bytes) : Prop :=
  ∀ a b, x ++ v ++ y = a ++ f ++ b → x.length ≤ a.length ∧ a.length + f.length ≤ x.length + v.length

/-- No occurrence of `f` in `x ++ m ++ y` overlaps `m`. -/
def Apart (x m y f : Bytes) : Prop :=
  ∀ a b, x ++ m ++ y = a ++ f ++ b → a.length + f.length ≤ x.length ∨ x.length + m.length ≤ a.length

section
variable {x y : Bytes}

/-- A form that neither occurs in `v` nor reaches out of it does not occur at all. -/
theorem not_infix_of_within (hin : Within x v y f) (hv : ¬f <:+: v) : ¬f <:+: x ++ v ++ y := by
  rintro ⟨a, b, heq⟩
  obtain ⟨hxa, hav⟩ := hin a b heq.symm
  have hx : x <+: x ++ v ++ y := ⟨v ++ y, by simp⟩
  have ha : a <+: x ++ v ++ y := ⟨f ++ b, by simpa using heq⟩
  obtain ⟨a', rfl⟩ := List.prefix_of_prefix_length_le hx ha hxa
  have hf : x ++ a' ++ f <+: x ++ v ++ y := ⟨b, heq⟩
  have hlen : (x ++ a' ++ f).length ≤ (x ++ v).length := by
    simp only [List.length_append] at hav ⊢
    omega
  obtain ⟨t, ht⟩ := List.prefix_of_prefix_length_le hf ⟨y, rfl⟩ hlen
  have hcancel : x ++ (a' ++ f ++ t) = x ++ v := by simpa using ht
  exact hv ⟨a', t, List.append_cancel_left hcancel⟩

/-- Once the secret is replaced, no form is left to be replaced. -/
theorem not_infix_of_apart {m : Bytes} (hin : Within x v y f) (hout : Apart x m y f) (hf : f ≠ []) :
    ¬f <:+: x ++ m ++ y := by
  have hpos := List.length_pos_of_ne_nil hf
  rintro ⟨a, b, heq⟩
  rcases hout a b heq.symm with hleft | hright
  · have ha : a ++ f <+: x ++ m ++ y := ⟨b, heq⟩
    have hlen : (a ++ f).length ≤ x.length := by simpa using hleft
    obtain ⟨t, rfl⟩ := List.prefix_of_prefix_length_le ha ⟨m ++ y, by simp⟩ hlen
    have := (hin a (t ++ v ++ y) (by simp)).1
    simp only [List.length_append] at this
    omega
  · have ha : a <+: x ++ m ++ y := ⟨f ++ b, by simpa using heq⟩
    have hlen : (x ++ m).length ≤ a.length := by simpa using hright
    obtain ⟨a', rfl⟩ := List.prefix_of_prefix_length_le ⟨y, rfl⟩ ha hlen
    have hcancel : x ++ m ++ (a' ++ f ++ b) = x ++ m ++ y := by simpa using heq
    obtain rfl := List.append_cancel_left hcancel
    have := (hin (x ++ v ++ a') b (by simp)).2
    simp only [List.length_append] at this
    omega

/-- Forms that do not occur change nothing. -/
theorem redacts_of_not_infix {secrets : List Bytes} {s : Bytes} (h : ∀ f ∈ secrets, ¬f <:+: s) :
    secrets.foldl (fun s secret => replaceAll secret marker s) s = s := by
  induction secrets with
  | nil => rfl
  | cons secret secrets ih =>
    rw [List.foldl_cons, replaceAll_of_absent (h secret (by simp))]
    exact ih fun f hf => h f (by simp [hf])

theorem split_first {l : List Bytes} (h : v ∈ l) : ∃ post, l = l.takeWhile (· ≠ v) ++ v :: post := by
  induction l with
  | nil => cases h
  | cons w l ih =>
    by_cases hw : w = v
    · exact ⟨l, by simp [hw]⟩
    · obtain ⟨post, hpost⟩ := ih ((List.mem_cons.mp h).resolve_left (Ne.symm hw))
      refine ⟨post, ?_⟩
      simp only [ne_eq, hw, not_false_eq_true, decide_true, List.takeWhile_cons_of_pos,
        List.cons_append, List.cons.injEq, true_and]
      exact hpost

end

/-! ## A secret that does not

Where no form has the bracket in it that markers begin with, brackets count replacements: a text
that ends with one more than it began with has had one replacement. -/

section
variable {secrets : List Bytes}

theorem bracket_mem_marker : leftBracket ∈ marker := by decide

theorem count_redacts (hne : ∀ f ∈ secrets, f ≠ []) (hl : ∀ f ∈ secrets, leftBracket ∉ f) (s : Bytes) :
    s.count leftBracket ≤
      (secrets.foldl (fun s secret => replaceAll secret marker s) s).count leftBracket := by
  induction secrets generalizing s with
  | nil => exact le_rfl
  | cons f secrets ih =>
    rw [List.forall_mem_cons] at hne hl
    exact (count_replaceAll hne.1 hl.1 bracket_mem_marker s).1.trans (ih hne.2 hl.2 _)

/-- With no bracket more, nothing was replaced. -/
theorem redacts_of_count_le (hne : ∀ f ∈ secrets, f ≠ []) (hl : ∀ f ∈ secrets, leftBracket ∉ f)
    {s : Bytes} (h : (secrets.foldl (fun s secret => replaceAll secret marker s) s).count leftBracket ≤
      s.count leftBracket) : secrets.foldl (fun s secret => replaceAll secret marker s) s = s := by
  induction secrets with
  | nil => rfl
  | cons f secrets ih =>
    rw [List.forall_mem_cons] at hne hl
    rw [List.foldl_cons] at h ⊢
    have hnot : ¬f <:+: s := fun hf => by
      have hmore := (count_replaceAll hne.1 hl.1 bracket_mem_marker s).2 hf
      have hrest := count_redacts hne.2 hl.2 (replaceAll f marker s)
      omega
    rw [replaceAll_of_absent hnot] at h ⊢
    exact ih hne.2 hl.2 h

/-- With one bracket more, the first form that occurs was replaced, once. -/
theorem redacts_once {pre post : List Bytes} (hne : ∀ f ∈ pre ++ post, f ≠ [])
    (hl : ∀ f ∈ pre ++ post, leftBracket ∉ f) {s : Bytes}
    (h : ((pre ++ post).foldl (fun s secret => replaceAll secret marker s) s).count leftBracket ≤
      s.count leftBracket + 1) (hf : f ∈ pre) (hs : f <:+: s) :
    ∃ g ∈ pre, ∃ p t, s = p ++ g ++ t ∧
      (pre ++ post).foldl (fun s secret => replaceAll secret marker s) s = p ++ marker ++ t := by
  induction pre with
  | nil => cases hf
  | cons g pre ih =>
    rw [List.cons_append, List.forall_mem_cons] at hne hl
    rw [List.cons_append, List.foldl_cons] at h ⊢
    by_cases hg : g <:+: s
    · have hmore := (count_replaceAll hne.1 hl.1 bracket_mem_marker s).2 hg
      have hsame := redacts_of_count_le hne.2 hl.2 (h.trans hmore)
      rw [hsame] at h ⊢
      obtain ⟨p, hp, ⟨rfl, -⟩ | ⟨t, rfl, heq⟩⟩ := replaceAll_first hne.1 marker s
      · exact absurd hg hp
      have hmarker : marker.count leftBracket = 1 := by decide
      have hrest : ¬g <:+: t := fun ht => by
        have hlater := (count_replaceAll hne.1 hl.1 bracket_mem_marker t).2 ht
        simp only [heq, List.count_append, List.count_eq_zero_of_not_mem hl.1, hmarker] at h
        omega
      refine ⟨g, List.mem_cons_self, p, t, by simp, ?_⟩
      rw [heq, replaceAll_of_absent hrest, List.append_assoc]
    · have hf : f ∈ pre := (List.mem_cons.mp hf).resolve_left (by rintro rfl; exact hg hs)
      rw [replaceAll_of_absent hg] at h ⊢
      obtain ⟨g, hg, hold⟩ := ih hne.2 hl.2 h hf
      exact ⟨g, List.mem_cons_of_mem _ hg, hold⟩

end

/-- If all occurrences of registered forms lie inside the secret `v`, it is replaced as a whole if
    no form that was registered before it occurs in it, and only then unless forms contain the
    bracket that markers begin with. -/
theorem redact_whole (calls : List (List Bytes)) (v x y : Bytes) (hv : RegisteredValue calls v)
    (hin : ∀ f, RegisteredForm calls f → Within x v y f)
    (hout : ∀ f, RegisteredForm calls f → Apart x marker y f) :
    ((∀ f ∈ (after calls).secrets.takeWhile (· ≠ v), ¬f <:+: v) →
      (after calls).redact (x ++ v ++ y) = x ++ marker ++ y) ∧
    ((∀ f, RegisteredForm calls f → leftBracket ∉ f) →
      (after calls).redact (x ++ v ++ y) = x ++ marker ++ y →
      ∀ f ∈ (after calls).secrets.takeWhile (· ≠ v), ¬f <:+: v) := by
  have hform : RegisteredForm calls v := ⟨⟨v, hv, mem_encodings v⟩, hv.2⟩
  have hne : ∀ f, RegisteredForm calls f → f ≠ [] := fun f hf =>
    secrets_ne_nil f ((mem_after calls).mpr hf)
  obtain ⟨post, hsplit⟩ := split_first ((mem_after calls).mpr hform)
  have hsecret : ∀ f, f ∈ (after calls).secrets.takeWhile (· ≠ v) ∨ f ∈ post →
      RegisteredForm calls f := by
    intro f hf
    rw [← mem_after, hsplit]
    rcases hf with hf | hf
    · exact List.mem_append_left _ hf
    · exact List.mem_append_right _ (List.mem_cons_of_mem _ hf)
  constructor
  · intro hfirst
    -- The forms before `v` find nothing, `v` is replaced once, and the forms after it find nothing.
    have hbefore : ∀ f ∈ (after calls).secrets.takeWhile (· ≠ v), ¬f <:+: x ++ v ++ y :=
      fun f hf => not_infix_of_within (hin f (hsecret f (.inl hf))) (hfirst f hf)
    have honce : replaceAll v marker (x ++ v ++ y) = x ++ marker ++ y := by
      rw [List.append_assoc, List.append_assoc]
      refine replaceAll_single (hne v hform) fun a b heq => ?_
      obtain ⟨hxa, hav⟩ := hin v hform a b (by simpa using heq)
      omega
    have hafter : ∀ f ∈ post, ¬f <:+: x ++ marker ++ y := fun f hf =>
      have hf := hsecret f (.inr hf)
      not_infix_of_apart (hin f hf) (hout f hf) (hne f hf)
    rw [redact, hsplit, List.foldl_append, redacts_of_not_infix hbefore, List.foldl_cons, honce,
      redacts_of_not_infix hafter]
  · intro hl hwhole f hf hfv
    rw [redact, hsplit] at hwhole
    have hcount : (x ++ marker ++ y).count leftBracket ≤ (x ++ v ++ y).count leftBracket + 1 := by
      have hmarker : marker.count leftBracket = 1 := by decide
      simp only [List.count_append, hmarker]
      omega
    obtain ⟨g, hg, p, t, hs, hr⟩ := redacts_once (by rw [← hsplit]; exact secrets_ne_nil)
      (by rw [← hsplit]; exact fun g hg => hl g ((mem_after calls).mp hg)) (hwhole ▸ hcount) hf
      (hfv.trans ⟨x, y, rfl⟩)
    -- what was replaced lies inside `v` and is as long, so it is `v`, which comes later
    have hlen := congrArg List.length (hr.symm.trans hwhole)
    have hlen' := congrArg List.length hs
    obtain ⟨hxp, hpv⟩ := hin g (hsecret g (.inl hg)) p t hs
    simp only [List.length_append] at hlen hlen'
    rw [List.append_assoc, List.append_assoc] at hs
    obtain ⟨-, hrest⟩ := List.append_inj hs (by omega)
    obtain ⟨rfl, -⟩ := List.append_inj hrest (by omega)
    simpa using List.mem_takeWhile_imp hg

/-- Occurrences are found by looking at every position. -/
theorem infix_position {s a b : Bytes} (h : s = a ++ f ++ b) :
    a.length < s.length + 1 ∧ f <+: s.drop a.length := by
  subst h
  refine ⟨by simp only [List.length_append]; omega, b, ?_⟩
  simp

theorem within_of_positions {x y : Bytes} (h : ∀ k < (x ++ v ++ y).length + 1,
    f <+: (x ++ v ++ y).drop k → x.length ≤ k ∧ k + f.length ≤ x.length + v.length) :
    Within x v y f := fun a _ heq =>
  h a.length (infix_position heq).1 (infix_position heq).2

theorem apart_of_positions {x m y : Bytes} (h : ∀ k < (x ++ m ++ y).length + 1,
    f <+: (x ++ m ++ y).drop k → k + f.length ≤ x.length ∨ x.length + m.length ≤ k) :
    Apart x m y f := fun a _ heq =>
  h a.length (infix_position heq).1 (infix_position heq).2

/-- The longer secret was registered first. -/
theorem redact_whole_longer :
    (after [[ascii "secret-key"], [ascii "secret"]]).redact
      (ascii "id=" ++ ascii "secret-key" ++ ascii ";") = ascii "id=" ++ marker ++ ascii ";" := by
  have hv : RegisteredValue [[ascii "secret-key"], [ascii "secret"]] (ascii "secret-key") :=
    ⟨⟨[ascii "secret-key"], by simp, by simp⟩, by decide⟩
  have hin : ∀ f ∈ (after [[ascii "secret-key"], [ascii "secret"]]).secrets,
      ∀ k < (ascii "id=" ++ ascii "secret-key" ++ ascii ";").length + 1,
        f <+: (ascii "id=" ++ ascii "secret-key" ++ ascii ";").drop k →
          (ascii "id=").length ≤ k ∧
            k + f.length ≤ (ascii "id=").length + (ascii "secret-key").length := by decide +kernel
  have hout : ∀ f ∈ (after [[ascii "secret-key"], [ascii "secret"]]).secrets,
      ∀ k < (ascii "id=" ++ marker ++ ascii ";").length + 1,
        f <+: (ascii "id=" ++ marker ++ ascii ";").drop k →
          k + f.length ≤ (ascii "id=").length ∨ (ascii "id=").length + marker.length ≤ k := by
    decide +kernel
  refine (redact_whole _ _ _ _ hv (fun f hf => ?_) (fun f hf => ?_)).1 (by decide +kernel)
  · exact within_of_positions (hin f ((mem_after _).mpr hf))
  · exact apart_of_positions (hout f ((mem_after _).mpr hf))

/-- The shorter one was registered first: the rest of the longer one remains. -/
theorem redact_whole_shorter :
    RegisteredValue [[ascii "secret"], [ascii "secret-key"]] (ascii "secret-key") ∧
      (∀ f, RegisteredForm [[ascii "secret"], [ascii "secret-key"]] f →
        Within [] (ascii "secret-key") [] f ∧ Apart [] marker [] f) ∧
      (after [[ascii "secret"], [ascii "secret-key"]]).redact (ascii "secret-key") =
        ascii "[redacted]-key" := by
  have hout : ∀ f ∈ (after [[ascii "secret"], [ascii "secret-key"]]).secrets, ¬f <:+: marker := by
    decide +kernel
  refine ⟨⟨⟨[ascii "secret-key"], by simp, by simp⟩, by decide⟩, fun f hf => ⟨?_, ?_⟩, by decide +kernel⟩
  · intro a b heq
    have := congrArg List.length heq
    simp only [List.nil_append, List.append_nil, List.length_append] at this
    simp only [List.length_nil]
    omega
  · intro a b heq
    exact absurd ⟨a, b, by simpa using heq.symm⟩ (hout f ((mem_after _).mpr hf))

end Redactor

end Ultracore.Secrets
