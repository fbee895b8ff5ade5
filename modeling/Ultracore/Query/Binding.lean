-- SUMMARY: A cursor continues the query it was issued for, and no other.
import Ultracore.Query.Compile

/-!
# Cursors and their queries

The signature carries a cursor unchanged from `NextCursor` to `Compile`, and the fingerprint in it
tells the search text, the filters and the sorts apart.
-/

namespace Ultracore.Query

section
variable {lib : Lib} {signer : Option Signer} {now now' : Int} {col : Collection}
  {compiled : Compiled} {sortValues : Slice String} {token : String}

/-- When a cursor issued at a time expires. -/
def Signer.expiry (s : Signer) (now : Int) : Int := unix (now + s.effectiveTTL)

/-- Before its expiry a cursor is read back as it was issued. -/
theorem verify_nextCursor {s : Signer}
    (h : nextCursor lib (some s) now col compiled sortValues = .ok token)
    (hlive : unix now' ≤ s.expiry now) : s.verify lib now' token =
      .ok ⟨1, col.name, compiled.fingerprint, sortValues, s.expiry now⟩ :=
  verify_sign_live h hlive

/-- A token is not read in any other way. -/
theorem payload_of_nextCursor {s : Signer} {p : CursorPayload}
    (h : nextCursor lib (some s) now col compiled sortValues = .ok token)
    (hverify : s.verify lib now' token = .ok p) :
    p.collection = col.name ∧ p.fingerprint = compiled.fingerprint ∧ p.sortValues = sortValues := by
  rw [eq_of_verify_sign h hverify]
  exact ⟨rfl, rfl, rfl⟩

/-- A request for the rest of a query gets its cursor back. -/
theorem openCursor_issued {s : Signer} {req : Request} {sorts : List SortKey}
    (h : nextCursor lib (some s) now col compiled sortValues = .ok token)
    (hlive : unix now' ≤ s.expiry now) (hcursor : req.page.cursor = token)
    (hfp : compiled.fingerprint = fingerprint lib col.name req sorts)
    (harity : sortValues.elems.length = sorts.length) : openCursor lib (some s) now' col req sorts =
      .ok (some ⟨1, col.name, compiled.fingerprint, sortValues, s.expiry now⟩) := by
  have hne : req.page.cursor ≠ "" := hcursor ▸ sign_ne_empty h
  rw [openCursor, if_neg hne, hcursor]
  simp [verify_nextCursor h hlive, refuse, hfp, harity, bind, Except.bind, pure, Except.pure]

end

/-- A cursor issued for one search verifies before its expiry with the sort values that it was
    issued with; and a search that accepts it is on the same collection, with the same trimmed
    text, the same filters and the same effective sorts. -/
theorem cursor_bound_to_query (lib : Lib) (hdigest : Function.Injective lib.digest) (s : Signer)
    (c₁ : Collection) (r₁ : Request) (compiled₁ : Compiled) (sortValues : Slice String)
    (token : String) (now₀ now₁ : Int)
    (hcompile : compile lib (some s) now₀ c₁ r₁ = .ok compiled₁)
    (hissue : nextCursor lib (some s) now₁ c₁ compiled₁ sortValues = .ok token) :
    (∀ now₂, unix now₂ ≤ s.expiry now₁ →
        ∃ p, s.verify lib now₂ token = .ok p ∧ p.sortValues = sortValues) ∧
      ∀ (c₂ : Collection) (r₂ : Request) (compiled₂ : Compiled) (now₂ : Int),
        c₁ ∈ registry → c₂ ∈ registry → r₂.page.cursor = token →
        compile lib (some s) now₂ c₂ r₂ = .ok compiled₂ →
        c₁ = c₂ ∧ Text.trimSpace r₁.query = Text.trimSpace r₂.query ∧
          r₁.filters = r₂.filters ∧ compiled₁.sorts = compiled₂.sorts := by
  refine ⟨fun now₂ hlive => ⟨_, verify_nextCursor hissue hlive, rfl⟩, ?_⟩
  intro c₂ r₂ compiled₂ now₂ hc₁ hc₂ hcursor haccept
  obtain ⟨_, _, _, -, -, -, rfl⟩ := compile_ok hcompile
  obtain ⟨cursor, _, _, -, hopen, -, rfl⟩ := compile_ok haccept
  rcases openCursor_ok hopen with ⟨hempty, -⟩ | ⟨_, p, -, hs, -, hverify, hname, hfp, -⟩
  · -- no cursor is empty
    exact absurd (hcursor.symm.trans hempty) (sign_ne_empty hissue)
  · cases hs
    rw [hcursor] at hverify
    obtain ⟨hname', hfp', -⟩ := payload_of_nextCursor hissue hverify
    obtain ⟨-, hquery, hfilters, hsorts⟩ := fingerprint_inj hdigest (hfp'.symm.trans hfp)
    exact ⟨eq_of_name hc₁ hc₂ (hname'.symm.trans hname), hquery, hfilters, hsorts⟩

/-- The tenants that have to do with a word, by name. -/
def tenantsByName (cursor : String) : Request := ⟨"acme ", none, [⟨"name", false⟩], ⟨2, cursor⟩⟩

theorem compile_tenantsByName {signer : Option Signer} {now : Int} {token : String}
    {cursor : Option CursorPayload}
    (hopen : openCursor .simple signer now tenantsCollection (tenantsByName token)
      (effectiveSorts tenantsCollection (tenantsByName token)) = .ok cursor)
    (hvalues : ∀ p, cursor = some p → p.sortValues = some ["acme", "id"]) :
    ∃ conds args, compile .simple signer now tenantsCollection (tenantsByName token) =
      .ok (.of .simple tenantsCollection (tenantsByName token) cursor conds args) := by
  have htrim : Text.trimSpace "acme " = "acme" := by decide
  have hsearch : compileSearch tenantsCollection "acme " [] =
      .ok ([.search [("t.name", ⟨1, .text ("%" ++ escapeLike "acme" ++ "%")⟩)]],
        [.text ("%" ++ escapeLike "acme" ++ "%")]) := by
    simp [compileSearch, htrim, tenantsCollection, searchParts]
  have hargs : tenantsCollection.selectArgs.map Value.text = [] := rfl
  have hwhere : (compileWhere .simple tenantsCollection (tenantsByName token)
      (effectiveSorts tenantsCollection (tenantsByName token)) cursor).toBool = true := by
    simp only [compileWhere, tenantsByName, hargs, hsearch]
    cases cursor with
    | none => rfl
    | some p =>
      simp only [compileKeyset, hvalues p rfl]
      rfl
  obtain ⟨⟨conds, args⟩, hwhere⟩ := exists_ok hwhere
  refine ⟨conds, args, compile_eq rfl ?_ hopen hwhere⟩
  exact List.cons_ne_nil _ _

/-- A cursor in their list, used within a day. -/
theorem cursor_bound_to_query_tenants :
    ∃ compiled₁ token compiled₂,
      compile .simple (some ⟨[7], 0⟩) 0 tenantsCollection (tenantsByName "") = .ok compiled₁ ∧
      nextCursor .simple (some ⟨[7], 0⟩) 0 tenantsCollection compiled₁ (some ["acme", "id"]) =
        .ok token ∧
      compile .simple (some ⟨[7], 0⟩) 1000 tenantsCollection (tenantsByName token) =
        .ok compiled₂ ∧
      (∃ p, Signer.verify .simple ⟨[7], 0⟩ 1000 token = .ok p ∧
        p.sortValues = some ["acme", "id"]) ∧
      compiled₁.sorts = compiled₂.sorts := by
  let s : Signer := ⟨[7], 0⟩
  obtain ⟨conds, args, hfirst⟩ :=
    @compile_tenantsByName (some s) 0 "" none rfl fun p hp => absurd hp (by simp)
  obtain ⟨token, hissue⟩ := exists_ok (show (nextCursor .simple (some s) 0 tenantsCollection
    (.of .simple tenantsCollection (tenantsByName "") none conds args)
    (some ["acme", "id"])).toBool = true from rfl)
  have hopen := openCursor_issued hissue (show unix 1000 ≤ s.expiry 0 by decide)
    (show (tenantsByName token).page.cursor = token from rfl) rfl rfl
  obtain ⟨conds', args', hnext⟩ := compile_tenantsByName hopen fun p hp => by
    rw [← Option.some.inj hp]
  obtain ⟨hverify, haccept⟩ :=
    cursor_bound_to_query .simple Lib.simple_digest s _ _ _ _ _ 0 0 hfirst hissue
  exact ⟨_, token, _, hfirst, hissue, hnext, hverify 1000 (by decide),
    (haccept _ _ _ 1000 (by simp [registry]) (by simp [registry]) rfl hnext).2.2.2⟩

end Ultracore.Query
