-- SUMMARY: The header that names the actor of a request, and which actors can be read back from it.
import Ultracore.Text.Base64
import Ultracore.Text.Basic

/-!
# Actor headers

`EncodeActorHeader` and `ParseActorHeader`, file `auth.go`. A header has the kind and the id of an
actor, and behind them the display name in base64. Nothing escapes a slash in the kind or the id,
so an actor with one comes back as another. Texts are sequences of bytes, and need not be valid
UTF-8.
-/

namespace Ultracore.ActorHeader

open Text (Bytes)

/-- An actor with texts of any bytes. -/
structure Actor where
  kind : Bytes
  id : Bytes
  display : Bytes

/-- `/` -/
def slash : UInt8 := 47

/-- `base64.RawURLEncoding.EncodeToString` -/
def encodeToString (s : Bytes) : Bytes := Text.ascii (Text.Base64.encode s)

/-- `base64.RawURLEncoding.DecodeString`, which skips line breaks. -/
def decodeString (s : Bytes) : Option Bytes :=
  Text.Base64.decode ((s.filter fun b => b ≠ 10 ∧ b ≠ 13).map fun b => Char.ofNat b.toNat)

def encodeActorHeader (a : Actor) : Bytes :=
  if a.display = [] then a.kind ++ slash :: a.id
  else a.kind ++ slash :: (a.id ++ slash :: encodeToString a.display)

/-- What stands before the first separator and what stands behind it, and whether there is one. -/
def split2 (sep : UInt8) : Bytes → Bytes × Bytes × Bool
  | [] => ([], [], false)
  | c :: s =>
    if c = sep then ([], s, true)
    else
      let (before, behind, ok) := split2 sep s
      (c :: before, behind, ok)

/-- A display name that cannot be decoded is taken as it stands. -/
def parseActorHeader (s : Bytes) : Actor :=
  if s = [] then ⟨[], [], []⟩
  else
    match split2 slash s with
    | (_, _, false) => ⟨s, [], []⟩
    | (kind, rest, true) =>
      match split2 slash rest with
      | (_, _, false) => ⟨kind, rest, []⟩
      | (id, enc, true) =>
        match decodeString enc with
        | none => ⟨kind, id, enc⟩
        | some display => ⟨kind, id, display⟩

/-! ## Splitting -/

section
variable {sep : UInt8} {a b s : Bytes}

theorem split2_append (h : sep ∉ a) : split2 sep (a ++ sep :: b) = (a, b, true) := by
  induction a with
  | nil => simp [split2]
  | cons c a ih =>
    have hc : c ≠ sep := fun heq => h (by simp [heq])
    simp [split2, hc, ih fun hmem => h (by simp [hmem])]

theorem split2_none (h : sep ∉ s) : split2 sep s = (s, [], false) := by
  induction s with
  | nil => rfl
  | cons c s ih =>
    have hc : c ≠ sep := fun heq => h (by simp [heq])
    simp [split2, hc, ih fun hmem => h (by simp [hmem])]

/-- The first part has no separator, and is everything if there is none. -/
theorem split2_first (sep : UInt8) (s : Bytes) : sep ∉ (split2 sep s).1 ∧
    ((split2 sep s).2.2 = false → (split2 sep s).1 = s) := by
  induction s with
  | nil => simp [split2]
  | cons c s ih =>
    by_cases hc : c = sep
    · simp [split2, hc]
    · simp only [split2, if_neg hc, List.mem_cons, not_or, List.cons.injEq, true_and]
      exact ⟨⟨Ne.symm hc, ih.1⟩, ih.2⟩

end

/-! ## Round trips -/

theorem decodeString_encodeToString (s : Bytes) : decodeString (encodeToString s) = some s := by
  have hback : ∀ c ∈ Text.Base64.encode s, (UInt8.ofNat c.toNat).toNat = c.toNat ∧ 45 ≤ c.toNat := by
    intro c hc
    have hrange := Text.Base64.encode_range s c hc
    rw [UInt8.toNat_ofNat']
    omega
  have hkept : (encodeToString s).filter (fun b => b ≠ 10 ∧ b ≠ 13) = encodeToString s := by
    refine List.filter_eq_self.mpr fun b hb => ?_
    obtain ⟨c, hc, rfl⟩ := List.mem_map.mp hb
    obtain ⟨hnat, hlow⟩ := hback c hc
    have hne : ∀ b : UInt8, b.toNat < 45 → UInt8.ofNat c.toNat ≠ b := by
      intro b hb heq
      rw [heq] at hnat
      omega
    simp [hne 10 (by decide), hne 13 (by decide)]
  rw [decodeString, hkept, encodeToString, Text.ascii, List.map_map]
  refine (congrArg _ ((List.map_congr_left fun c hc => ?_).trans (List.map_id _))).trans
    (Text.Base64.decode_encode s)
  rw [Function.comp_apply, (hback c hc).1, Char.ofNat_toNat, id]

/-- No header yields a slash in the kind or the id. -/
theorem slash_not_mem_parse (s : Bytes) :
    slash ∉ (parseActorHeader s).kind ∧ slash ∉ (parseActorHeader s).id := by
  have hkind := split2_first slash s
  unfold parseActorHeader
  split
  · simp
  split
  · rename_i heq
    rw [heq] at hkind
    simpa [← hkind.2 rfl] using hkind.1
  · rename_i kind rest heq
    rw [heq] at hkind
    have hid := split2_first slash rest
    split
    · rename_i heq'
      rw [heq'] at hid
      refine ⟨hkind.1, ?_⟩
      simpa [← hid.2 rfl] using hid.1
    · rename_i heq'
      rw [heq'] at hid
      split
      · exact ⟨hkind.1, hid.1⟩
      · exact ⟨hkind.1, hid.1⟩

/-- An actor is read back from its header if and only if neither its kind nor its id has a
    slash. -/
theorem header_round_trip (a : Actor) :
    parseActorHeader (encodeActorHeader a) = a ↔ slash ∉ a.kind ∧ slash ∉ a.id := by
  constructor
  · intro h
    have hparse := slash_not_mem_parse (encodeActorHeader a)
    rwa [h] at hparse
  · rintro ⟨hkind, hid⟩
    obtain ⟨kind, id, display⟩ := a
    by_cases hdisplay : display = []
    · simp [encodeActorHeader, parseActorHeader, hdisplay, split2_append hkind, split2_none hid]
    · simp [encodeActorHeader, parseActorHeader, hdisplay, split2_append hkind, split2_append hid,
        decodeString_encodeToString]

end Ultracore.ActorHeader
