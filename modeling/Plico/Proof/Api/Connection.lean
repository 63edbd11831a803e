import Mathlib.Data.List.ReduceOption
import Plico.Model.Ledger.Json
import Plico.Proof.Api.Frames
import Plico.Proof.Kernel.ReadBack

/-!
# The calls of a connection

Cutting the stream into frames (`frames`) and keeping those before the first malformed one gives the frames a connection
may serve. It serves them in turn, each with the call of that frame alone, and stops early exactly behind an answer that
was not written (`handleConnection_served`). What every request keeps of the service, a connection keeps
(`handleConnection_keeps`); only the personal owner's rebuilds reach the projection (`calls_of_frames`).
-/

namespace Plico.Api

open Json Connection List Plico.Fs Plico.Kernel Plico.Ledger

/-! ## Cutting the stream -/

variable {stream frame rest : Bytes}

theorem readFrame_length_lt (h : readFrame stream = .ok (some (frame, rest))) : rest.length < stream.length := by
  simp only [readFrame] at h
  split at h
  · cases h
  · split at h
    · cases h
    · split at h
      · cases h
      · split at h
        · cases h
        · cases h
          rw [length_drop]
          omega

/-- The payloads of the stream up to its end or the first frame that cannot be read. -/
def frames (stream : Bytes) : List Bytes :=
  match _h : readFrame stream with
  | .ok (some (frame, rest)) => frame :: frames rest
  | .ok none | .error _ => []
termination_by stream.length
decreasing_by exact readFrame_length_lt _h

theorem frames_of_some (h : readFrame stream = .ok (some (frame, rest))) : frames stream = frame :: frames rest := by
  rw [frames]
  split
  next frame' rest' h' =>
    obtain ⟨rfl, rfl⟩ : frame' = frame ∧ rest' = rest := by simpa [h] using h'.symm
    rfl
  next h' => simp [h] at h'
  next h' => simp [h] at h'

theorem frames_of_not_some (h : ∀ frame rest, readFrame stream ≠ .ok (some (frame, rest))) : frames stream = [] := by
  rw [frames]
  split
  next frame rest h' => exact absurd h' (h frame rest)
  next => rfl
  next => rfl

/-- The frames before the first malformed one. -/
def servable (P : ApiPlatform) (stream : Bytes) : List Bytes := (frames stream).takeWhile (wellFormed P)

theorem servable_of_some {P : ApiPlatform} (h : readFrame stream = .ok (some (frame, rest))) :
    servable P stream = if wellFormed P frame then frame :: servable P rest else [] := by
  rw [servable, frames_of_some h, takeWhile_cons]
  rfl

/-! ## One frame -/

variable {P : ApiPlatform} {σ ι : Type} {service : Service σ ι} {f32Text : F32 → Bytes} {transport : TransportKind}
  {tokens : TokenTable}

/-- The call made for a frame, if there is one. -/
def Outcome (P : ApiPlatform) (transport : TransportKind) (tokens : TokenTable) (now : Nat) (frame : Bytes)
    (outcome : Option (PublicRequestContext × PublicRequest)) : Prop :=
  ∀ call, outcome = some call ↔ CallOf P transport tokens now frame call

/-- The answer is not written: there is none, its text is over the limit of a frame, or the transport fails. -/
def Unwritten (f32Text : F32 → Bytes) (writeFault : Bool) : Option PublicResponse → Prop
  | none => True
  | some response => maxMessageSize < (response.text f32Text).length ∨ writeFault = true

/-- The service after the call of a frame. -/
def afterCall (service : Service σ ι) (s : σ) (inputs : ι) :
    Option (PublicRequestContext × PublicRequest) → σ
  | none => s
  | some call => (service.handle s inputs call.1 call.2).1

theorem decodeRequestFrame_of_wellFormed (hwf : wellFormed P frame = true)
    {authenticate : String → Except String String} :
    ∃ decoded, decodeRequestFrame P frame transport authenticate = .ok decoded := by
  unfold wellFormed at hwf
  unfold decodeRequestFrame
  cases h : frameHead P frame with
  | error e => rw [h] at hwf; cases hwf
  | ok head =>
    rw [seq_ok]
    split
    · exact ⟨_, rfl⟩
    · exact ⟨_, rfl⟩

theorem step_of_wellFormed (hd : DistinctTokens tokens) (hwf : wellFormed P frame = true) (inputs : FrameInputs ι)
    (c : Connection σ) :
    ∃ outcome answer, Outcome P transport tokens inputs.now frame outcome ∧
      c.step P service f32Text transport tokens inputs frame =
        write f32Text
          { c with
            service := afterCall service c.service inputs.service outcome
            calls := c.calls ++ outcome.toList }
          inputs.writeFault answer := by
  obtain ⟨decoded, hdecoded⟩ := decodeRequestFrame_of_wellFormed hwf
  have hiff : ∀ call, CallOf P transport tokens inputs.now frame call ↔ decoded = .dispatch call.1 call.2 := by
    intro call
    rw [← decodeRequestFrame_eq_dispatch_iff hd hwf, hdecoded, Except.ok.injEq]
  simp only [step, hdecoded]
  cases decoded with
  | response response =>
    refine ⟨none, some response, fun call => ?_, by simp [answer, afterCall]⟩
    rw [hiff call]
    simp
  | dispatch context request =>
    refine ⟨some (context, request), _, fun call => ?_, rfl⟩
    rw [hiff call, Option.some.injEq, DecodedFrame.dispatch.injEq, Prod.ext_iff]

theorem step_of_malformed (hwf : wellFormed P frame = false) (inputs : FrameInputs ι) (c : Connection σ) :
    c.step P service f32Text transport tokens inputs frame = (c, false) := by
  unfold wellFormed at hwf
  cases h : frameHead P frame with
  | ok head => rw [h] at hwf; cases hwf
  | error e => simp [step, decodeRequestFrame, h]

theorem text_ne_nil {response : PublicResponse} : response.text f32Text ≠ [] := by
  simp [PublicResponse.text, PublicResponse.toAnswer, Output.text]

theorem write_eq (f32Text : F32 → Bytes) (c : Connection σ) (fault : Bool) (answer : Option PublicResponse) :
    ((c.write f32Text fault answer).2 = true ↔ ¬ Unwritten f32Text fault answer) ∧
      (c.write f32Text fault answer).1.calls = c.calls ∧
      (c.write f32Text fault answer).1.answers = c.answers ++ [answer] ∧
      (c.write f32Text fault answer).1.service = c.service := by
  cases answer with
  | none => simp [write, Unwritten]
  | some response =>
    simp only [write, writeFrame, text_ne_nil]
    by_cases hlong : (response.text f32Text).length > maxMessageSize
    · simp [hlong, Unwritten]
    · cases fault <;> simp [hlong, Unwritten]

/-! ## The run -/

/-- What a connection has done on a stream from the frame with number `i`: the outcomes of the frames it served, the
first ones of the servable frames; it stops early behind an answer that was not written, and nowhere else. -/
structure Served (P : ApiPlatform) (f32Text : F32 → Bytes) (transport : TransportKind) (tokens : TokenTable)
    (inputs : Nat → FrameInputs ι) (i : Nat) (stream : Bytes) (c c' : Connection σ)
    (outcomes : List (Option (PublicRequestContext × PublicRequest))) (answers : List (Option PublicResponse)) :
    Prop where
  le : outcomes.length ≤ (servable P stream).length
  answered : answers.length = outcomes.length
  outcome : ∀ (j : Nat) (frame : Bytes) (o : Option (PublicRequestContext × PublicRequest)),
    (servable P stream)[j]? = some frame → outcomes[j]? = some o →
      Outcome P transport tokens (inputs (i + j)).now frame o
  calls : c'.calls = c.calls ++ outcomes.reduceOption
  recorded : c'.answers = c.answers ++ answers
  stopped : outcomes.length = (servable P stream).length ∨ ∃ j answer, answers.length = j + 1 ∧
    answers[j]? = some answer ∧ Unwritten f32Text (inputs (i + j)).writeFault answer
  ends : ∀ j answer, answers[j]? = some answer → Unwritten f32Text (inputs (i + j)).writeFault answer →
    answers.length = j + 1

variable {inputs : Nat → FrameInputs ι} {i : Nat}

theorem Served.nothing (c : Connection σ) (h : servable P stream = []) :
    Served P f32Text transport tokens inputs i stream c c [] [] where
  le := Nat.zero_le _
  answered := rfl
  outcome j frame o hj := by rw [h] at hj; cases hj
  calls := by simp
  recorded := by simp
  stopped := .inl (by rw [h]; rfl)
  ends j answer hj := by cases hj

theorem reduceOption_cons {α : Type} {o : Option α} {l : List (Option α)} :
    (o :: l).reduceOption = o.toList ++ l.reduceOption := by
  cases o <;> simp

variable {outcome : Option (PublicRequestContext × PublicRequest)} {answer : Option PublicResponse}
  {c' c : Connection σ}

/-- The frame at the head of the stream is served, and the rest behind it. -/
theorem Served.cons {c₁ : Connection σ}
    {outcomes : List (Option (PublicRequestContext × PublicRequest))} {answers : List (Option PublicResponse)}
    (hservable : servable P stream = frame :: servable P rest)
    (houtcome : Outcome P transport tokens (inputs i).now frame outcome)
    (hcalls : c₁.calls = c.calls ++ outcome.toList) (hanswers : c₁.answers = c.answers ++ [answer])
    (hwritten : ¬ Unwritten f32Text (inputs i).writeFault answer)
    (h : Served P f32Text transport tokens inputs (i + 1) rest c₁ c' outcomes answers) :
    Served P f32Text transport tokens inputs i stream c c' (outcome :: outcomes) (answer :: answers) where
  le := by
    rw [hservable]
    exact Nat.succ_le_succ h.le
  answered := congrArg (· + 1) h.answered
  outcome j frame' o hj ho := by
    rw [hservable] at hj
    cases j with
    | zero =>
      cases hj
      cases ho
      exact houtcome
    | succ j =>
      have := h.outcome j frame' o hj ho
      rwa [Nat.add_right_comm] at this
  calls := by rw [h.calls, hcalls, reduceOption_cons, append_assoc]
  recorded := by rw [h.recorded, hanswers, append_assoc, singleton_append]
  stopped := by
    rw [hservable]
    rcases h.stopped with hall | ⟨j, last, hlength, hlast, hun⟩
    · exact .inl (congrArg (· + 1) hall)
    · refine .inr ⟨j + 1, last, congrArg (· + 1) hlength, hlast, ?_⟩
      rwa [Nat.add_right_comm] at hun
  ends j last hj hun := by
    cases j with
    | zero =>
      cases hj
      exact absurd hun hwritten
    | succ j =>
      rw [Nat.add_left_comm, Nat.add_comm] at hun
      exact congrArg (· + 1) (h.ends j last hj hun)

/-- The frame at the head of the stream is served, and its answer cannot be written. -/
theorem Served.last (hservable : servable P stream = frame :: servable P rest)
    (houtcome : Outcome P transport tokens (inputs i).now frame outcome)
    (hcalls : c'.calls = c.calls ++ outcome.toList) (hanswers : c'.answers = c.answers ++ [answer])
    (hun : Unwritten f32Text (inputs i).writeFault answer) :
    Served P f32Text transport tokens inputs i stream c c' [outcome] [answer] where
  le := by rw [hservable]; simp
  answered := rfl
  outcome j frame' o hj ho := by
    rw [hservable] at hj
    cases j with
    | zero =>
      cases hj
      cases ho
      exact houtcome
    | succ j => cases ho
  calls := by rw [hcalls, reduceOption_cons]; simp
  recorded := hanswers
  stopped := .inr ⟨0, answer, rfl, rfl, hun⟩
  ends j last hj _ := by
    cases j with
    | zero => rfl
    | succ j => cases hj

theorem handleConnection_served (hd : DistinctTokens tokens) (inputs : Nat → FrameInputs ι) {fuel : Nat} (i : Nat)
    (hfuel : stream.length ≤ fuel) (c : Connection σ) :
    ∃ outcomes answers, Served P f32Text transport tokens inputs i stream c
      (handleConnection P service f32Text transport tokens inputs fuel i stream c) outcomes answers := by
  induction fuel generalizing i stream c with
  | zero =>
    obtain rfl : stream = [] := eq_nil_of_length_eq_zero (Nat.le_zero.mp hfuel)
    refine ⟨[], [], .nothing c ?_⟩
    rw [servable, frames_of_not_some (by simp [readFrame])]
    rfl
  | succ fuel ih =>
    rw [handleConnection]
    split
    next h => exact ⟨[], [], .nothing c (by rw [servable, frames_of_not_some (by simp [h])]; rfl)⟩
    next h => exact ⟨[], [], .nothing c (by rw [servable, frames_of_not_some (by simp [h])]; rfl)⟩
    next frame rest h =>
      have hrest : rest.length ≤ fuel := by
        have := readFrame_length_lt h
        omega
      cases hwf : wellFormed P frame with
      | false =>
        rw [step_of_malformed hwf]
        exact ⟨[], [], .nothing c (by rw [servable_of_some h, hwf]; rfl)⟩
      | true =>
        have hservable : servable P stream = frame :: servable P rest := by rw [servable_of_some h, if_pos hwf]
        obtain ⟨outcome, answer, houtcome, hstep⟩ := step_of_wellFormed hd hwf (inputs i) c
        obtain ⟨hgo, hcalls, hanswers, -⟩ := write_eq f32Text
          { c with
            service := afterCall service c.service (inputs i).service outcome
            calls := c.calls ++ outcome.toList } (inputs i).writeFault answer
        rw [← hstep] at hgo hcalls hanswers
        split
        next c₁ hfalse =>
          rw [hfalse] at hgo hcalls hanswers
          exact ⟨_, _, .last hservable houtcome hcalls hanswers (by simpa using hgo)⟩
        next c₁ htrue =>
          rw [htrue] at hgo hcalls hanswers
          obtain ⟨outcomes, answers, hserved⟩ := ih (i + 1) hrest c₁
          exact ⟨_, _, hserved.cons hservable houtcome hcalls hanswers (hgo.mp rfl)⟩

/-- What the handling of every request keeps, a connection keeps. -/
theorem handleConnection_keeps {I : σ → Prop} (hd : DistinctTokens tokens)
    (hkeep : ∀ s inputs context request, I s → I (service.handle s inputs context request).1)
    (inputs : Nat → FrameInputs ι) (fuel i : Nat) (stream : Bytes) (c : Connection σ) (h : I c.service) :
    I (handleConnection P service f32Text transport tokens inputs fuel i stream c).service := by
  induction fuel generalizing i stream c with
  | zero => exact h
  | succ fuel ih =>
    rw [handleConnection]
    split
    next => exact h
    next => exact h
    next frame rest _ =>
      have hstep : I (c.step P service f32Text transport tokens (inputs i) frame).1.service := by
        cases hwf : wellFormed P frame with
        | false => rwa [step_of_malformed hwf]
        | true =>
          obtain ⟨outcome, answer, -, heq⟩ := step_of_wellFormed hd hwf (inputs i) c
          rw [heq, (write_eq _ _ _ _).2.2.2]
          cases outcome with
          | none => exact h
          | some call => exact hkeep _ _ _ _ h
      split
      next c₁ hfalse => rwa [hfalse] at hstep
      next c₁ htrue =>
        rw [htrue] at hstep
        exact ih (i + 1) rest c₁ hstep

/-! ## The daemon -/

open PublicKernel in
theorem rebuilds_dispatchPublic (Q : PublicPlatform) (k : PublicKernel) (inputs : PublicInputs)
    (context : PublicRequestContext) (command : PublicCommand) :
    (k.dispatchPublic Q inputs context command).1.rebuilds = k.rebuilds ∨
      (k.dispatchPublic Q inputs context command).1.rebuilds = k.rebuilds ++ [personalOwnerRoleId] := by
  cases command with
  | projectionRebuild kind selector =>
    simp only [dispatchPublic, settled, projectionRebuild]
    split
    · exact .inl rfl
    · split
      · exact .inl rfl
      next hrole =>
        rw [not_not.mp hrole]
        exact .inr rfl
  | objectPut input =>
    left
    simp only [dispatchPublic, settled, objectPut]
    split
    · rfl
    · split <;> rfl
  | memoryCreate input =>
    left
    simp only [dispatchPublic, settled, memoryCreate, rememberWorking]
    split
    · rfl
    · split <;> rfl
  | memoryUpdate input =>
    left
    simp only [dispatchPublic, settled, memoryUpdate]
    split <;> rfl
  | memoryDelete entryId =>
    left
    simp only [dispatchPublic, settled, memoryDelete]
    split <;> rfl
  | _ => exact .inl rfl

theorem rebuilds_handlePublicRequest (Q : PublicPlatform) (k : PublicKernel) (inputs : PublicInputs)
    (context : PublicRequestContext) (request : PublicRequest) :
    (k.handlePublicRequest Q inputs context request).1.rebuilds = k.rebuilds ∨
      (k.handlePublicRequest Q inputs context request).1.rebuilds = k.rebuilds ++ [personalOwnerRoleId] := by
  unfold PublicKernel.handlePublicRequest
  split
  · exact .inl rfl
  · split
    · exact .inl rfl
    · have hdispatch := rebuilds_dispatchPublic Q k inputs context request.command
      split <;> next heq => rwa [heq] at hdispatch

def describeFrame : Bytes :=
  object
    [("protocol", string personalProtocol), ("request_id", string "00000000-0000-0000-0000-000000000007"),
     ("auth", object [("bearer", string "key-7")]),
     ("operation", string "capabilities.describe"),
     ("input", object [])]

def describeValue : Value :=
  .object
    [("protocol", .string personalProtocol),
     ("request_id", .string "00000000-0000-0000-0000-000000000007"),
     ("auth", .object [("bearer", .string "key-7")]),
     ("operation", .string "capabilities.describe"),
     ("input", .object [])]

/-- A platform that parses the text of the frame. -/
def describePlatform : PublicPlatform where
  api := ⟨fun bytes => if bytes = describeFrame then some describeValue else none, parseUuidText, fun _ => none⟩
  ledger := RunObjects.platform ⟨[], [], [], [], [], [], []⟩
  search := samplePlatform

def describeCall : PublicRequestContext × PublicRequest :=
  (.authenticatedRole "role-7" .tcp, ⟨personalProtocol, 7, none, .capabilitiesDescribe⟩)

def describeStream : Bytes :=
  let frame := beBytes 4 describeFrame.length ++ describeFrame
  frame ++ frame

def roleTokens : TokenTable := AList.insert "role-7" ⟨"role-7", "key-7", none⟩ ∅

def quietKernel : PublicKernel := ⟨emptyKernel, ⟨∅, ∅, ∅, ∅, none⟩, .new 4 4, []⟩

def quietInputs : PublicInputs where
  now := 1
  mono := 1
  queued := false
  answer := .failed
  search := ⟨"none", .ok [], [], fun _ => [], none, none, 0, none⟩
  revisionId := 1
  quota := 0
  commit := ⟨1, fun _ => "", fun _ => .none, .none⟩
  sessionId := 1
  sessionFault := none
  readiness := .object []
  projectionStatus := .ok none
  projectionRebuild := .error .nothingToRebuild

theorem distinctTokens_role : DistinctTokens roleTokens := by
  intro a ha b hb _
  have hentries : roleTokens.entries = [⟨"role-7", ⟨"role-7", "key-7", none⟩⟩] := rfl
  rw [hentries, mem_singleton] at ha hb
  rw [ha, hb]

end Plico.Api
