-- SUMMARY: The delta batcher of a step: streamed text is coalesced and emitted without loss.
import Mathlib.Data.List.Basic

/-!
# The delta batcher

`deltaBatcher` of `loop/step.go`. Its calls and the callbacks of its timers hold its mutex, so
they happen one after another. A timer that is stopped may have fired already: its callback then
still waits for the mutex, and flushes when it gets it.
-/

namespace Ultracore.Loop

/-- A Go string. -/
abbrev Bytes := List UInt8

/-- The two kinds of text that a model streams. -/
inductive DeltaKind where
  | text
  | reasoning
deriving DecidableEq

/-- `TextDeltaPayload` and `ReasoningDeltaPayload`. -/
structure Delta where
  kind : DeltaKind
  runID : String
  stepIndex : Int
  attempt : Int
  deltaIndex : Nat
  text : Bytes
deriving DecidableEq

/-- `deltaBatcher`. A timer is the number it was made under and its interval; `emitted` is what
    `emit` was called with. -/
structure Batcher where
  runID : String
  stepIndex : Int
  attempt : Int
  interval : Int
  maxBytes : Int
  textBuf : Bytes := []
  reasonBuf : Bytes := []
  deltaIndex : Nat := 0
  timer : Option (Nat × Int) := none
  timers : Nat := 0
  emitted : List Delta := []

namespace Batcher

/-- The flush threshold: what is not positive stands for the default. -/
def threshold (maxBytes : Int) : Int := if maxBytes ≤ 0 then 512 else maxBytes

/-- `newDeltaBatcher`. The default interval is 100 ms, in nanoseconds. -/
def new (runID : String) (stepIndex attempt interval maxBytes : Int) : Batcher where
  runID := runID
  stepIndex := stepIndex
  attempt := attempt
  interval := if interval ≤ 0 then 100000000 else interval
  maxBytes := threshold maxBytes

/-- The bytes that wait to be emitted. -/
def buffered (b : Batcher) : Nat := b.textBuf.length + b.reasonBuf.length

/-- The buffer of a kind. -/
def buf (b : Batcher) : DeltaKind → Bytes
  | .text => b.textBuf
  | .reasoning => b.reasonBuf

def setBuf (b : Batcher) (bytes : Bytes) : DeltaKind → Batcher
  | .text => { b with textBuf := bytes }
  | .reasoning => { b with reasonBuf := bytes }

/-- One of the two branches of `flushLocked`. -/
def flushBuf (b : Batcher) (kind : DeltaKind) : Batcher :=
  if 0 < (b.buf kind).length then
    ({ b with
      emitted := b.emitted ++ [⟨kind, b.runID, b.stepIndex, b.attempt, b.deltaIndex, b.buf kind⟩]
      deltaIndex := b.deltaIndex + 1 } : Batcher).setBuf [] kind
  else b

def flushLocked (b : Batcher) : Batcher :=
  (({ b with timer := none } : Batcher).flushBuf .reasoning).flushBuf .text

/-- The end of `add`: a timer, unless one is armed. -/
def arm (b : Batcher) : Batcher :=
  match b.timer with
  | none => { b with timer := some (b.timers, b.interval), timers := b.timers + 1 }
  | some _ => b

def add (b : Batcher) (kind : DeltaKind) (delta : Bytes) : Batcher :=
  let b := b.setBuf (b.buf kind ++ delta) kind
  if b.maxBytes ≤ b.buffered then b.flushLocked else b.arm

def addText (b : Batcher) (delta : Bytes) : Batcher := b.add .text delta

def addReasoning (b : Batcher) (delta : Bytes) : Batcher := b.add .reasoning delta

def flushAll (b : Batcher) : Batcher := b.flushLocked

/-- What holds the mutex: a call, or the callback of a timer, stopped or not. -/
inductive Call where
  | addText (delta : Bytes)
  | addReasoning (delta : Bytes)
  | callback (timer : Nat)
  | flushAll

def step (b : Batcher) : Call → Batcher
  | .addText delta => b.addText delta
  | .addReasoning delta => b.addReasoning delta
  | .callback _ => b.flushLocked
  | .flushAll => b.flushAll

def run (b : Batcher) (calls : List Call) : Batcher := calls.foldl step b

/-- What a call adds to the text of a kind. -/
def Call.bytes : DeltaKind → Call → Bytes
  | .text, .addText delta => delta
  | .reasoning, .addReasoning delta => delta
  | _, _ => []

/-- The emitted text of a kind. -/
def emittedText (b : Batcher) (kind : DeltaKind) : Bytes :=
  ((b.emitted.filter (·.kind = kind)).map Delta.text).flatten

/-- All text of a kind that the batcher was given: what it emitted and what it still holds. -/
def received (b : Batcher) (kind : DeltaKind) : Bytes := b.emittedText kind ++ b.buf kind

/-! ## What one call does -/

section
variable {b : Batcher} {kind other : DeltaKind} {bytes : Bytes}

@[simp] theorem buf_setBuf : (b.setBuf bytes kind).buf other = if other = kind then bytes else b.buf other := by
  cases kind <;> cases other <;> rfl

@[simp] theorem emitted_setBuf : (b.setBuf bytes kind).emitted = b.emitted := by
  cases kind <;> rfl

@[simp] theorem deltaIndex_setBuf : (b.setBuf bytes kind).deltaIndex = b.deltaIndex := by
  cases kind <;> rfl

@[simp] theorem maxBytes_setBuf : (b.setBuf bytes kind).maxBytes = b.maxBytes := by
  cases kind <;> rfl

theorem flushBuf_of_empty (h : b.buf kind = []) : b.flushBuf kind = b := by
  simp [flushBuf, h]

theorem flushBuf_of_ne (h : b.buf kind ≠ []) : b.flushBuf kind = ({ b with
      emitted := b.emitted ++ [⟨kind, b.runID, b.stepIndex, b.attempt, b.deltaIndex, b.buf kind⟩]
      deltaIndex := b.deltaIndex + 1 } : Batcher).setBuf [] kind :=
  if_pos (List.length_pos_iff.mpr h)

/-- The delta indices of what was emitted count up from zero. -/
structure Numbered (b : Batcher) : Prop where
  indices : b.emitted.map Delta.deltaIndex = List.range b.deltaIndex
  nonempty : ∀ e ∈ b.emitted, e.text ≠ []

@[simp] theorem buf_flushBuf :
    (b.flushBuf kind).buf other = if other = kind then [] else b.buf other := by
  by_cases h : b.buf kind = []
  · rw [flushBuf_of_empty h]
    split <;> simp_all
  · rw [flushBuf_of_ne h, buf_setBuf]
    rfl

@[simp] theorem maxBytes_flushBuf : (b.flushBuf kind).maxBytes = b.maxBytes := by
  unfold flushBuf
  split <;> simp

/-- A flush moves text from the buffer to the log. -/
theorem received_flushBuf : (b.flushBuf kind).received other = b.received other := by
  by_cases h : b.buf kind = []
  · rw [flushBuf_of_empty h]
  · simp only [received, emittedText, flushBuf_of_ne h, buf_setBuf, emitted_setBuf,
      List.filter_append, List.map_append, List.flatten_append, List.append_assoc]
    by_cases hk : kind = other
    · simp [hk]
    · simp only [List.filter_cons, hk, Ne.symm hk, decide_false, Bool.false_eq_true, if_false,
        List.filter_nil, List.map_nil, List.flatten_nil, List.nil_append]
      rfl

theorem Numbered.flushBuf (hb : b.Numbered) : (b.flushBuf kind).Numbered := by
  by_cases h : b.buf kind = []
  · rwa [flushBuf_of_empty h]
  · rw [flushBuf_of_ne h]
    refine ⟨?_, fun e he => ?_⟩
    · simp [hb.indices, List.range_succ]
    · simp only [emitted_setBuf, List.mem_append, List.mem_singleton] at he
      rcases he with he | rfl
      · exact hb.nonempty e he
      · exact h

theorem buf_flushLocked : b.flushLocked.buf kind = [] := by
  cases kind <;> simp [flushLocked]

@[simp] theorem maxBytes_flushLocked : b.flushLocked.maxBytes = b.maxBytes := by
  simp [flushLocked]

theorem received_flushLocked : b.flushLocked.received kind = b.received kind := by
  simp only [flushLocked, received_flushBuf]
  cases kind <;> rfl

theorem Numbered.flushLocked (hb : b.Numbered) : b.flushLocked.Numbered := by
  have h : ({ b with timer := none } : Batcher).Numbered := ⟨hb.indices, hb.nonempty⟩
  exact h.flushBuf.flushBuf

theorem buffered_flushLocked : b.flushLocked.buffered = 0 := by
  have ht : b.flushLocked.textBuf = [] := @buf_flushLocked b .text
  have hr : b.flushLocked.reasonBuf = [] := @buf_flushLocked b .reasoning
  simp [buffered, ht, hr]

/-- A timer changes nothing else. -/
theorem arm_eq (b : Batcher) : ∃ timer timers, b.arm = { b with timer, timers } := by
  unfold arm
  split
  · exact ⟨_, _, rfl⟩
  · exact ⟨b.timer, b.timers, rfl⟩

/-- What `add` ends with: the buffers flushed, or the bytes below the threshold. -/
theorem add_cases (b : Batcher) (kind : DeltaKind) (delta : Bytes) :
    b.add kind delta = (b.setBuf (b.buf kind ++ delta) kind).flushLocked ∨
      ((b.setBuf (b.buf kind ++ delta) kind).buffered : Int) < b.maxBytes ∧
        b.add kind delta = (b.setBuf (b.buf kind ++ delta) kind).arm := by
  simp only [add, maxBytes_setBuf]
  split
  · exact .inl rfl
  next hfull => exact .inr ⟨Int.not_le.mp hfull, rfl⟩

theorem received_setBuf_append {delta : Bytes} :
    (b.setBuf (b.buf kind ++ delta) kind).received other =
      b.received other ++ if other = kind then delta else [] := by
  simp only [received, emittedText, emitted_setBuf, buf_setBuf]
  split
  next h => simp [h]
  · simp

theorem received_add {delta : Bytes} : (b.add kind delta).received other =
      b.received other ++ if other = kind then delta else [] := by
  rw [← received_setBuf_append]
  rcases add_cases b kind delta with heq | ⟨-, heq⟩
  · rw [heq, received_flushLocked]
  · obtain ⟨timer, timers, harm⟩ := arm_eq (b.setBuf (b.buf kind ++ delta) kind)
    rw [heq, harm]
    cases other <;> rfl

theorem Numbered.add (hb : b.Numbered) {delta : Bytes} : (b.add kind delta).Numbered := by
  have hset : (b.setBuf (b.buf kind ++ delta) kind).Numbered :=
    ⟨by simpa using hb.indices, by simpa using hb.nonempty⟩
  rcases add_cases b kind delta with heq | ⟨-, heq⟩
  · rw [heq]
    exact hset.flushLocked
  · obtain ⟨timer, timers, harm⟩ := arm_eq (b.setBuf (b.buf kind ++ delta) kind)
    rw [heq, harm]
    exact ⟨hset.indices, hset.nonempty⟩

theorem maxBytes_add {delta : Bytes} : (b.add kind delta).maxBytes = b.maxBytes := by
  rcases add_cases b kind delta with heq | ⟨-, heq⟩
  · simp [heq]
  · obtain ⟨timer, timers, harm⟩ := arm_eq (b.setBuf (b.buf kind ++ delta) kind)
    simp [heq, harm]

theorem buffered_add {delta : Bytes} (hpos : 0 < b.maxBytes) :
    ((b.add kind delta).buffered : Int) < b.maxBytes := by
  rcases add_cases b kind delta with heq | ⟨hlt, heq⟩
  · rw [heq, buffered_flushLocked]
    exact hpos
  · obtain ⟨timer, timers, harm⟩ := arm_eq (b.setBuf (b.buf kind ++ delta) kind)
    rw [heq, harm]
    exact hlt

end

/-! ## Whole runs -/

/-- The batcher with the threshold `limit`, and the text it was given. -/
structure Sound (limit : Int) (given : DeltaKind → Bytes) (b : Batcher) : Prop where
  received : ∀ kind, b.received kind = given kind
  numbered : b.Numbered
  maxBytes : b.maxBytes = limit
  below : (b.buffered : Int) < limit

theorem threshold_pos (maxBytes : Int) : 0 < threshold maxBytes := by
  unfold threshold
  split <;> omega

theorem sound_new (runID : String) (stepIndex attempt interval maxBytes : Int) :
    (new runID stepIndex attempt interval maxBytes).Sound (threshold maxBytes) fun _ => [] where
  received := by
    intro kind
    cases kind <;> rfl
  numbered := ⟨rfl, by simp [new]⟩
  maxBytes := rfl
  below := threshold_pos maxBytes

section
variable {b : Batcher} {limit : Int} {given : DeltaKind → Bytes}

theorem Sound.flushLocked (hpos : 0 < limit) (hb : b.Sound limit given) :
    b.flushLocked.Sound limit given where
  received := fun kind => by rw [received_flushLocked, hb.received]
  numbered := hb.numbered.flushLocked
  maxBytes := by rw [maxBytes_flushLocked, hb.maxBytes]
  below := by
    rw [buffered_flushLocked]
    exact hpos

theorem Sound.add (hpos : 0 < limit) (hb : b.Sound limit given) (kind : DeltaKind) (delta : Bytes) :
    (b.add kind delta).Sound limit
      fun other => given other ++ if other = kind then delta else [] where
  received := fun other => by rw [received_add, hb.received]
  numbered := hb.numbered.add
  maxBytes := by rw [maxBytes_add, hb.maxBytes]
  below := by
    have h := @buffered_add b kind delta (by rwa [hb.maxBytes])
    rwa [hb.maxBytes] at h

theorem Sound.step (hpos : 0 < limit) (hb : b.Sound limit given) (call : Call) :
    (b.step call).Sound limit fun kind => given kind ++ call.bytes kind := by
  cases call with
  | addText delta =>
    convert hb.add hpos .text delta using 3 with kind
    · cases kind <;> rfl
    · rfl
  | addReasoning delta =>
    convert hb.add hpos .reasoning delta using 3 with kind
    · cases kind <;> rfl
    · rfl
  | callback | flushAll =>
    simp only [Call.bytes, List.append_nil]
    exact hb.flushLocked hpos

theorem Sound.run (hpos : 0 < limit) (hb : b.Sound limit given) (calls : List Call) :
    (b.run calls).Sound limit fun kind => given kind ++ (calls.map (Call.bytes kind)).flatten := by
  induction calls generalizing b given with
  | nil => simpa [Batcher.run] using hb
  | cons call calls ih => simpa [Batcher.run] using ih (hb.step hpos call)

end

/-- Whatever calls and callbacks come in whatever order: the delta indices count up from zero, no
    emitted text is empty, fewer bytes than the threshold wait, and once a `flushAll` comes, the
    emitted text of either kind is the text that was added. -/
theorem lossless (runID : String) (stepIndex attempt interval maxBytes : Int)
    (calls : List Call) :
    let b := (new runID stepIndex attempt interval maxBytes).run calls
    let flushed := (new runID stepIndex attempt interval maxBytes).run (calls ++ [.flushAll])
    (∀ kind, flushed.emittedText kind = (calls.map (Call.bytes kind)).flatten) ∧
      b.emitted.map Delta.deltaIndex = List.range b.emitted.length ∧
      (∀ e ∈ b.emitted, e.text ≠ []) ∧
      (b.buffered : Int) < threshold maxBytes := by
  intro b flushed
  have hpos := threshold_pos maxBytes
  have hb := (sound_new runID stepIndex attempt interval maxBytes).run hpos calls
  have hflushed := (sound_new runID stepIndex attempt interval maxBytes).run hpos
    (calls ++ [.flushAll])
  refine ⟨fun kind => ?_, ?_, hb.numbered.nonempty, hb.below⟩
  · have hempty : flushed.buf kind = [] := by
      simp only [flushed, Batcher.run, List.foldl_append, List.foldl_cons, List.foldl_nil]
      exact buf_flushLocked
    have h := hflushed.received kind
    rw [Batcher.received, show ((new runID stepIndex attempt interval maxBytes).run
      (calls ++ [.flushAll])).buf kind = [] from hempty, List.append_nil] at h
    simpa [Call.bytes] using h
  · have hlen : b.emitted.length = b.deltaIndex := by
      have h := congrArg List.length hb.numbered.indices
      simpa using h
    rw [hlen]
    exact hb.numbered.indices

/-- The callback of a timer that `flushAll` stopped comes after more text. -/
theorem lossless_late_callback :
    ((new "run-1" 0 1 0 0).run [.addText [72, 105], .flushAll, .addReasoning [63], .addText [33],
      .callback 0, .flushAll]).emittedText .text = [72, 105, 33] :=
  (lossless "run-1" 0 1 0 0 [.addText [72, 105], .flushAll, .addReasoning [63], .addText [33],
    .callback 0]).1 .text

end Batcher

end Ultracore.Loop
