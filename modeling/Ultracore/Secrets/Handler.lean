-- SUMMARY: The redacting log handler: which secrets reach the handler behind it.
import Ultracore.Secrets.Redact

/-!
# The redacting handler

File `redact.go`. A `RedactingHandler` stands in front of another handler and hands on what it
gets, with messages and attributes redacted. All handlers derived from one share its redactor,
in which secrets are registered at any time. Keys and the names of groups are no values.
-/

namespace Ultracore.Secrets

open Text (Bytes)

/-- A `slog.Value`. An `any` is known by its text, a `LogValuer` by what it resolves to. Numbers,
    times and truth values hold no text. -/
inductive Value where
  | string (s : Bytes)
  | any (text : Bytes)
  | scalar
  | logValuer (resolved : Value)
  | group (attrs : List (Bytes × Value))

/-- `slog.Attr`: a key and a value. -/
abbrev Attr := Bytes × Value

structure Record where
  message : Bytes
  attrs : List Attr

/-- Some string in the value, at any depth, contains `f`. -/
inductive Value.Holds (f : Bytes) : Value → Prop where
  | string {s : Bytes} : f <:+: s → Holds f (.string s)
  | any {text : Bytes} : f <:+: text → Holds f (.any text)
  | logValuer {v : Value} : Holds f v → Holds f (.logValuer v)
  | group {attrs : List Attr} {a : Attr} : a ∈ attrs → Holds f a.2 → Holds f (.group attrs)

/-- What the inner handler is handed. -/
inductive Handed where
  | withAttrs (attrs : List Attr)
  | withGroup (name : Bytes)
  | handle (rec : Record)

/-- Some string that is handed on contains `f`. -/
def Handed.Holds (f : Bytes) : Handed → Prop
  | .withAttrs attrs => ∃ a ∈ attrs, a.2.Holds f
  | .withGroup _ => False
  | .handle rec => f <:+: rec.message ∨ ∃ a ∈ rec.attrs, a.2.Holds f

/-! ## The handler -/

/-- `redactAttr`: groups and `LogValuer`s are handed on as they are. -/
def redactAttr (r : Redactor) (a : Attr) : Attr :=
  match a.2 with
  | .string s => (a.1, .string (r.redact s))
  | .any text => (a.1, .string (r.redact text))
  | _ => a

/-- A record does not take groups without attributes. -/
def Value.isEmptyGroup : Value → Bool
  | .group [] => true
  | _ => false

def handle (r : Redactor) (rec : Record) : Record where
  message := r.redact rec.message
  attrs := (rec.attrs.map (redactAttr r)).filter fun a => !a.2.isEmptyGroup

def withAttrs (r : Redactor) (attrs : List Attr) : List Attr := attrs.map (redactAttr r)

/-- What can happen: a registration, or a call of one of the handlers that share the
    redactor. -/
inductive Op where
  | register (values : List Bytes)
  | withAttrs (attrs : List Attr)
  | withGroup (name : Bytes)
  | handle (rec : Record)

/-- Everything that is handed on. -/
def handed : Redactor → List Op → List Handed
  | _, [] => []
  | r, .register values :: ops => handed (r.register values) ops
  | r, .withAttrs attrs :: ops => .withAttrs (withAttrs r attrs) :: handed r ops
  | r, .withGroup name :: ops => .withGroup name :: handed r ops
  | r, .handle rec :: ops => .handle (handle r rec) :: handed r ops

/-! ## What gets through -/

/-- A value that is handed on as it is holds no string with `f`. -/
def Value.Flat (f : Bytes) : Value → Prop
  | .logValuer v => ¬v.Holds f
  | .group attrs => ¬(Value.group attrs).Holds f
  | _ => True

/-- The attributes of a call. -/
def Op.attrs : Op → List Attr
  | .withAttrs attrs => attrs
  | .handle rec => rec.attrs
  | _ => []

section
variable {r : Redactor} {f : Bytes}

theorem redactAttr_clean (hr : ∀ s, ¬f <:+: r.redact s) {a : Attr} :
    ¬(redactAttr r a).2.Holds f ↔ a.2.Flat f := by
  obtain ⟨key, v⟩ := a
  cases v with
  | string s =>
    refine iff_of_true ?_ trivial
    rintro (h | _)
    exact hr s h
  | any text =>
    refine iff_of_true ?_ trivial
    rintro (h | _)
    exact hr text h
  | scalar =>
    refine iff_of_true ?_ trivial
    intro h
    cases h
  | logValuer =>
    refine not_congr ⟨?_, .logValuer⟩
    rintro (_ | _ | h)
    exact h
  | group => exact Iff.rfl

theorem withAttrs_clean (hr : ∀ s, ¬f <:+: r.redact s) {attrs : List Attr} :
    (¬∃ a ∈ withAttrs r attrs, a.2.Holds f) ↔ ∀ a ∈ attrs, a.2.Flat f := by
  simp only [withAttrs, ← redactAttr_clean hr, not_exists, not_and, List.forall_mem_map]

/-- What a record does not take holds nothing. -/
theorem handle_clean (hr : ∀ s, ¬f <:+: r.redact s) {rec : Record} :
    ¬(Handed.handle (handle r rec)).Holds f ↔ ∀ a ∈ rec.attrs, a.2.Flat f := by
  rw [← withAttrs_clean hr]
  refine not_congr ⟨?_, ?_⟩
  · rintro (hmsg | ⟨a, ha, hold⟩)
    · exact absurd hmsg (hr _)
    · exact ⟨a, (List.mem_filter.mp ha).1, hold⟩
  · rintro ⟨a, ha, hold⟩
    refine .inr ⟨a, List.mem_filter.mpr ⟨ha, ?_⟩, hold⟩
    obtain ⟨key, v⟩ := a
    cases hold with
    | string | any | logValuer => rfl
    | group hmem =>
      obtain ⟨_, _, rfl⟩ := List.exists_cons_of_ne_nil (List.ne_nil_of_mem hmem)
      rfl

/-- One call hands on nothing with `f` exactly if its attributes are flat, and every later redactor
    has `f` too. -/
theorem handed_clean (hl : Redactor.leftBracket ∉ f) (hrb : Redactor.rightBracket ∉ f)
    (hword : ¬f <:+: ascii "redacted") {ops : List Op} (hf : f ∈ r.secrets)
    (hne : ∀ secret ∈ r.secrets, secret ≠ []) :
    (∀ h ∈ handed r ops, ¬h.Holds f) ↔ ∀ op ∈ ops, ∀ a ∈ op.attrs, a.2.Flat f := by
  induction ops generalizing r with
  | nil => simp [handed]
  | cons op ops ih =>
    have hclean : ∀ s, ¬f <:+: r.redact s := fun s =>
      Redactor.not_infix_redacts hl hrb hword hne (.inl hf)
    rw [List.forall_mem_cons]
    cases op with
    | register values =>
      have hne' : ∀ secret ∈ (r.register values).secrets, secret ≠ [] := fun secret hs => by
        rcases (Redactor.mem_register values).mp hs with hs | ⟨v, -, -, -, hlen⟩
        · exact hne secret hs
        · rintro rfl
          simp at hlen
      rw [handed, ih ((Redactor.mem_register values).mpr (.inl hf)) hne']
      simp [Op.attrs]
    | withAttrs =>
      rw [handed, List.forall_mem_cons, ih hf hne]
      exact and_congr_left' (withAttrs_clean hclean)
    | withGroup =>
      rw [handed, List.forall_mem_cons, ih hf hne]
      simp [Op.attrs, Handed.Holds]
    | handle =>
      rw [handed, List.forall_mem_cons, ih hf hne]
      exact and_congr_left' (handle_clean hclean)

end

/-- Nothing that is handed on from then on holds the secret, whatever is registered and logged,
    exactly if no group and no `LogValuer` does. -/
theorem handler_lets_no_secret_through (calls : List (List Bytes)) (f : Bytes)
    (hf : RegisteredForm calls f) (hl : Redactor.leftBracket ∉ f) (hr : Redactor.rightBracket ∉ f)
    (hword : ¬f <:+: ascii "redacted") (ops : List Op) :
    (∀ h ∈ handed (Redactor.after calls) ops, ¬h.Holds f) ↔
      ∀ op ∈ ops, ∀ a ∈ op.attrs, a.2.Flat f :=
  handed_clean hl hr hword ((Redactor.mem_after calls).mpr hf) Redactor.secrets_ne_nil

theorem secret_registered : RegisteredForm [[ascii "secret"]] (ascii "secret") :=
  (Redactor.mem_after _).mp (by decide +kernel)

/-- A message, a string and a text are redacted. -/
theorem handler_lets_no_secret_through_plain :
    RegisteredForm [[ascii "secret"]] (ascii "secret") ∧
      ∀ h ∈ handed (Redactor.after [[ascii "secret"]])
        [.withAttrs [(ascii "key", .string (ascii "secret"))],
          .handle ⟨ascii "the secret", [(ascii "error", .any (ascii "bad secret"))]⟩],
        ¬h.Holds (ascii "secret") := by
  refine ⟨secret_registered, (handler_lets_no_secret_through [[ascii "secret"]] (ascii "secret")
    secret_registered (by decide) (by decide) (by decide) _).mpr fun op hop a ha => ?_⟩
  simp only [List.mem_cons, List.not_mem_nil, or_false] at hop
  rcases hop with rfl | rfl
  · obtain rfl := List.mem_singleton.mp ha
    trivial
  · obtain rfl := List.mem_singleton.mp ha
    trivial

/-- A group is handed on with the secret in it. -/
theorem handler_lets_no_secret_through_group :
    RegisteredForm [[ascii "secret"]] (ascii "secret") ∧
      Redactor.leftBracket ∉ ascii "secret" ∧ Redactor.rightBracket ∉ ascii "secret" ∧
      ¬ascii "secret" <:+: ascii "redacted" ∧
      ∃ h ∈ handed (Redactor.after [[ascii "secret"]])
        [.handle ⟨ascii "request", [(ascii "http", .group [(ascii "key", .string (ascii "secret"))])]⟩],
        h.Holds (ascii "secret") := by
  refine ⟨secret_registered, by decide, by decide, by decide, _, List.mem_singleton.mpr rfl, .inr ?_⟩
  exact ⟨(ascii "http", .group [(ascii "key", .string (ascii "secret"))]), List.mem_singleton.mpr rfl,
    .group (List.mem_singleton.mpr rfl) (.string List.infix_rfl)⟩

end Ultracore.Secrets
