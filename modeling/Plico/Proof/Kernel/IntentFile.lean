import Plico.Framework.Run
import Plico.Model.Kernel.IntentFile
import Plico.Proof.Scheduler.Queue

/-!
# Intents across restarts

An intent is saved by the call that submits it, but the file is removed when it has been read at a start, and a
dequeue does not touch it. So a restart finds the acknowledged intents, and none that was completed, when every
process has saved the queue after restoring it and after the dequeue of every intent it completed (`Covered`), and
when saves do not overlap (`Alone`). `Covers` says what a snapshot has to do with the present queue; it holds of the
queue itself and is kept by every step, for the snapshots on their way and for the one in the file.
-/

namespace Plico.Kernel.IntentSystem

open Disk IntentCall IntentSystem List Scheduler SchedulerQueue

variable {β : Type} {codec : Codec (List Intent) β Eq} {s s' : IntentSystem β}

/-! ## Conditions on a run -/

/-- A new intent has a new id. -/
def FreshId (s : IntentSystem β) : IntentStep → Prop
  | .submit intent _ => intent.id ∉ s.issued
  | _ => True

/-- A snapshot is only taken when no other one is on its way into the file. -/
def Alone (s : IntentSystem β) : IntentStep → Prop
  | .call i => (s.calls[i]?.map IntentCall.phase) = some .queued → ∀ call ∈ s.calls, call.saving = false
  | _ => True

/-- A process that crashes has saved the queue since it restored one, and the saved queue was taken after the dequeue of
every completed intent. -/
def Covered (s : IntentSystem β) : IntentStep → Prop
  | .crash => (s.restored ≠ [] → s.disk.exists_ .index) ∧
      (s.disk.exists_ .index → ∀ id ∈ s.dequeued.drop s.inFile, id ∉ s.completed)
  | _ => True

def Orderly (s : IntentSystem β) (step : IntentStep) : Prop := FreshId s step ∧ Alone s step ∧ Covered s step

instance (s : IntentSystem β) (step : IntentStep) : Decidable (FreshId s step) := by
  unfold FreshId
  split <;> infer_instance

instance (s : IntentSystem β) (step : IntentStep) : Decidable (Alone s step) := by
  unfold Alone
  split <;> infer_instance

instance (s : IntentSystem β) (step : IntentStep) : Decidable (Covered s step) := by
  unfold Covered
  split <;> infer_instance

instance (s : IntentSystem β) (step : IntentStep) : Decidable (Orderly s step) :=
  inferInstanceAs (Decidable (_ ∧ _ ∧ _))

/-! ## Snapshots -/

/-- What a snapshot that was taken after `seen` dequeues has to do with the present. -/
structure Covers (s : IntentSystem β) (intents : List Intent) (seen : Nat) : Prop where
  all : ∀ x ∈ s.acknowledged, x.id ∉ s.dequeued → x ∈ intents
  stale : ∀ x ∈ intents, x ∈ s.queue ∨ x.id ∈ s.dequeued.drop seen
  nodup : (intents.map Intent.id).Nodup
  issued : ∀ x ∈ intents, x.id ∈ s.issued
  seen_le : seen ≤ s.dequeued.length

/-- Intents enter the queue and leave it; those that leave are dequeued. -/
structure Moves (s s' : IntentSystem β) (taken : List String) : Prop where
  acknowledged : s'.acknowledged = s.acknowledged
  dequeued : s'.dequeued = s.dequeued ++ taken
  queue : ∀ x ∈ s.queue, x ∈ s'.queue ∨ x.id ∈ taken
  issued : ∀ id ∈ s.issued, id ∈ s'.issued

theorem Moves.of_eq (hacknowledged : s'.acknowledged = s.acknowledged) (hdequeued : s'.dequeued = s.dequeued)
    (hqueue : s'.queue = s.queue) (hissued : s'.issued = s.issued) : Moves s s' [] where
  acknowledged := hacknowledged
  dequeued := by rw [hdequeued, append_nil]
  queue x hx := .inl (by rw [hqueue]; exact hx)
  issued id hid := by rw [hissued]; exact hid

variable {taken : List String}

theorem Moves.mem_dequeued {id : String} (m : Moves s s' taken) (h : id ∈ s.dequeued) : id ∈ s'.dequeued := by
  rw [m.dequeued]
  exact mem_append_left _ h

theorem Moves.mem_queue {x : Intent} (m : Moves s s' taken) (h : x ∈ s.queue ∨ x.id ∈ s.dequeued) :
    x ∈ s'.queue ∨ x.id ∈ s'.dequeued := by
  rcases h with h | h
  · refine (m.queue x h).imp_right fun h => ?_
    rw [m.dequeued]
    exact mem_append_right _ h
  · exact .inr (m.mem_dequeued h)

variable {intents : List Intent} {seen : Nat}

theorem Covers.mono (h : Covers s intents seen) (m : Moves s s' taken) : Covers s' intents seen where
  all x hx hnot := by
    rw [m.acknowledged] at hx
    exact h.all x hx fun hmem => hnot (m.mem_dequeued hmem)
  stale x hx := by
    rw [m.dequeued, drop_append_of_le_length h.seen_le]
    rcases h.stale x hx with hx | hx
    · exact (m.queue x hx).imp_right fun hx => mem_append_right _ hx
    · exact .inr (mem_append_left _ hx)
  nodup := h.nodup
  issued x hx := m.issued _ (h.issued x hx)
  seen_le := by
    rw [m.dequeued, length_append]
    exact Nat.le_add_right_of_le h.seen_le

/-- A snapshot that has the intents acknowledged from now on. -/
theorem Covers.acknowledge {added : List Intent} (h : Covers s intents seen)
    (hacknowledged : s'.acknowledged = s.acknowledged ++ added) (hdequeued : s'.dequeued = s.dequeued)
    (hqueue : s'.queue = s.queue) (hissued : s'.issued = s.issued)
    (hadded : ∀ x ∈ added, x ∈ intents ∨ x.id ∈ s.dequeued) : Covers s' intents seen where
  all x hx hnot := by
    rw [hacknowledged] at hx
    rw [hdequeued] at hnot
    rcases mem_append.mp hx with hx | hx
    · exact h.all x hx hnot
    · exact (hadded x hx).resolve_right hnot
  stale x hx := by
    rw [hdequeued, hqueue]
    exact h.stale x hx
  nodup := h.nodup
  issued x hx := by
    rw [hissued]
    exact h.issued x hx
  seen_le := by
    rw [hdequeued]
    exact h.seen_le

/-! ## The invariant -/

/-- What a call carries. -/
def CallKept (codec : Codec (List Intent) β Eq) (s : IntentSystem β) (call : IntentCall) : Prop :=
  match call.phase with
  | .queued => ∀ x ∈ call.intent, x ∈ s.queue ∨ x.id ∈ s.dequeued
  | .taken intents seen => Covers s intents seen ∧ ∀ x ∈ call.intent, x ∈ intents ∨ x.id ∈ s.dequeued
  | .written intents seen => (Covers s intents seen ∧ ∀ x ∈ call.intent, x ∈ intents ∨ x.id ∈ s.dequeued) ∧
      s.disk.read .temp = some (codec.encode intents)
  | .returned => True

/-- What the file of a vault without a process is good for. -/
structure Settled (s : IntentSystem β) (intents : List Intent) : Prop where
  all : ∀ x ∈ s.acknowledged, x.id ∉ s.dequeued → x ∈ intents
  incomplete : ∀ x ∈ intents, x.id ∉ s.completed
  nodup : (intents.map Intent.id).Nodup
  issued : ∀ x ∈ intents, x.id ∈ s.issued

/-- No process: what the next start will read. -/
structure Down (codec : Codec (List Intent) β Eq) (s : IntentSystem β) : Prop where
  queue : s.queue = []
  running : s.running = []
  calls : s.calls = []
  file : ∃ intents, ((s.disk.read .index).bind codec.decode).getD [] = intents ∧ Settled s intents ∧
    (s.disk.read .index = none ∨ s.disk.read .index = some (codec.encode intents) ∧ s.inFile ≤ s.dequeued.length)
  completed : s.completed.Nodup
  issued : ∀ id ∈ s.completed, id ∈ s.issued

/-- A process: the queue is complete, and the file covers it if there is one. -/
structure Up (codec : Codec (List Intent) β Eq) (s : IntentSystem β) : Prop where
  all : ∀ x ∈ s.acknowledged, x.id ∉ s.dequeued → x ∈ s.queue
  distinct : (s.queue.map Intent.id ++ s.running.map Intent.id ++ s.completed).Nodup
  issued : ∀ id ∈ s.queue.map Intent.id ++ s.running.map Intent.id ++ s.completed, id ∈ s.issued
  single : Sole saving s.calls
  calls : ∀ call ∈ s.calls, CallKept codec s call
  file : ∀ bytes, s.disk.read .index = some bytes → ∃ intents, bytes = codec.encode intents ∧ Covers s intents s.inFile
  missing : s.disk.read .index = none → ∀ x ∈ s.acknowledged, x.id ∉ s.dequeued → x ∈ s.restored
  restoring : s.phase = .restoring → s.calls = [] ∧ s.restored = s.queue

/-- The invariant of every reachable state. -/
def Kept (codec : Codec (List Intent) β Eq) (s : IntentSystem β) : Prop :=
  match s.phase with
  | .down => Down codec s
  | .restoring | .up => Up codec s

theorem Up.covers (h : Up codec s) : Covers s s.queue s.dequeued.length where
  all := h.all
  stale _ hx := .inl hx
  nodup := (nodup_append.mp (nodup_append.mp h.distinct).1).1
  issued _ hx := h.issued _ (mem_append_left _ (mem_append_left _ (mem_map_of_mem hx)))
  seen_le := Nat.le_refl _

variable {call : IntentCall}

theorem CallKept.mono (h : CallKept codec s call) (m : Moves s s' taken)
    (hdisk : s'.disk.read .temp = s.disk.read .temp) : CallKept codec s' call := by
  unfold CallKept at h ⊢
  split at h
  · exact fun x hx => m.mem_queue (h x hx)
  · exact ⟨h.1.mono m, fun x hx => (h.2 x hx).imp_right m.mem_dequeued⟩
  · rw [hdisk]
    exact ⟨⟨h.1.1.mono m, fun x hx => (h.1.2 x hx).imp_right m.mem_dequeued⟩, h.2⟩
  · trivial

/-! ## Steps of a process -/

section

variable (h : Up codec s)
include h

/-- A step that leaves the file and the acknowledged intents alone. -/
theorem Up.moves (m : Moves s s' taken) (hindex : s'.disk.read .index = s.disk.read .index)
    (hinFile : s'.inFile = s.inFile) (hrestored : s'.restored = s.restored) (hphase : s'.phase = .up)
    (hdistinct : (s'.queue.map Intent.id ++ s'.running.map Intent.id ++ s'.completed).Nodup)
    (hissued : ∀ id ∈ s'.queue.map Intent.id ++ s'.running.map Intent.id ++ s'.completed, id ∈ s'.issued)
    (hsingle : Sole saving s'.calls) (hcalls : ∀ call ∈ s'.calls, CallKept codec s' call) : Up codec s' where
  all x hx hnot := by
    rw [m.acknowledged] at hx
    have hqueue := h.all x hx fun hmem => hnot (m.mem_dequeued hmem)
    exact (m.mem_queue (.inl hqueue)).resolve_right hnot
  distinct := hdistinct
  issued := hissued
  single := hsingle
  calls := hcalls
  file bytes hbytes := by
    rw [hindex] at hbytes
    obtain ⟨intents, hencode, hcovers⟩ := h.file bytes hbytes
    rw [hinFile]
    exact ⟨intents, hencode, hcovers.mono m⟩
  missing hnone x hx hnot := by
    rw [hindex] at hnone
    rw [m.acknowledged] at hx
    rw [hrestored]
    exact h.missing hnone x hx fun hmem => hnot (m.mem_dequeued hmem)
  restoring hrestoring := by
    rw [hphase] at hrestoring
    cases hrestoring

section

variable (hphase : s.phase = .up)
include hphase

theorem Up.submit {intent : Intent} (state : Option AgentState)
    (hfresh : intent.id ∉ s.issued) : Up codec (s.submit intent state) := by
  unfold IntentSystem.submit
  split
  · exact h
  · have hnew : intent.id ∉ s.queue.map Intent.id ++ s.running.map Intent.id ++ s.completed :=
      fun hmem => hfresh (h.issued _ hmem)
    have hmoves : Moves s
        { s with
          queue := s.queue.push intent
          issued := s.issued ++ [intent.id]
          calls := s.calls ++ [⟨some intent, .queued⟩] } [] := by
      refine ⟨rfl, (append_nil _).symm, fun x hx => .inl (mem_append_left _ hx), fun id hid => ?_⟩
      exact mem_append_left _ hid
    have hperm : ((s.queue.push intent).map Intent.id ++ s.running.map Intent.id ++ s.completed).Perm
        (intent.id :: (s.queue.map Intent.id ++ s.running.map Intent.id ++ s.completed)) := by
      simp only [push, map_append, append_assoc]
      exact perm_middle
    refine h.moves hmoves rfl rfl rfl hphase (hperm.nodup_iff.mpr (nodup_cons.mpr ⟨hnew, h.distinct⟩)) ?_
      (h.single.append rfl) ?_
    · intro id hid
      rcases mem_cons.mp (hperm.mem_iff.mp hid) with rfl | hid
      · exact mem_append_right _ (mem_singleton_self _)
      · exact mem_append_left _ (h.issued id hid)
    · intro call hcall
      rcases mem_concat.mp hcall with hcall | rfl
      · exact (h.calls call hcall).mono hmoves rfl
      · intro x hx
        obtain rfl : intent = x := Option.some.inj hx
        exact .inl (mem_append_right _ (mem_singleton_self _))

theorem Up.persist : Up codec { s with calls := s.calls ++ [⟨none, .queued⟩] } := by
  refine h.moves (Moves.of_eq rfl rfl rfl rfl) rfl rfl rfl hphase h.distinct h.issued (h.single.append rfl) ?_
  intro call hcall
  rcases mem_concat.mp hcall with hcall | rfl
  · exact (h.calls call hcall).mono (Moves.of_eq rfl rfl rfl rfl) rfl
  · intro x hx
    cases hx

theorem Up.dequeue (n : Nat) : Up codec (s.dequeue n) := by
  unfold IntentSystem.dequeue
  cases hpop : s.queue.popAt n with
  | none => exact h
  | some popped =>
    obtain ⟨intent, queue⟩ := popped
    have hperm := (Scheduler.popAt_eq_some hpop).1.symm
    have hids : (queue.map Intent.id ++ (s.running ++ [intent]).map Intent.id ++ s.completed).Perm
        (s.queue.map Intent.id ++ s.running.map Intent.id ++ s.completed) := by
      refine List.Perm.append_right _ (.trans ?_ ((hperm.map Intent.id).append_right _))
      rw [map_append, ← append_assoc]
      exact perm_append_comm
    have hmoves : Moves s
        { s with queue, running := s.running ++ [intent], dequeued := s.dequeued ++ [intent.id] } [intent.id] := by
      refine ⟨rfl, rfl, fun x hx => ?_, fun id hid => hid⟩
      rcases mem_cons.mp (hperm.mem_iff.mpr hx) with rfl | hx
      · exact .inr (mem_singleton_self _)
      · exact .inl hx
    exact h.moves hmoves rfl rfl rfl hphase (hids.nodup_iff.mpr h.distinct)
      (fun id hid => h.issued id (hids.mem_iff.mp hid)) h.single
      fun call hcall => (h.calls call hcall).mono hmoves rfl

theorem Up.complete (n : Nat) : Up codec (s.complete n) := by
  unfold IntentSystem.complete
  cases hn : s.running[n]? with
  | none => exact h
  | some intent =>
    obtain ⟨hlt, rfl⟩ := List.getElem?_eq_some_iff.mp hn
    have hperm := getElem_cons_eraseIdx_perm hlt
    have hids : (s.queue.map Intent.id ++ (s.running.eraseIdx n).map Intent.id ++ (s.completed ++
        [s.running[n].id])).Perm (s.queue.map Intent.id ++ s.running.map Intent.id ++ s.completed) := by
      rw [append_assoc, append_assoc]
      refine List.Perm.append_left _ ?_
      refine .trans ?_ ((hperm.map Intent.id).append_right s.completed)
      rw [← append_assoc]
      exact perm_append_comm
    exact h.moves (Moves.of_eq rfl rfl rfl rfl) rfl rfl rfl hphase (hids.nodup_iff.mpr h.distinct)
      (fun id hid => h.issued id (hids.mem_iff.mp hid)) h.single
      fun call hcall => (h.calls call hcall).mono (Moves.of_eq rfl rfl rfl rfl) rfl

end

end

/-! ## Saving -/

theorem CallKept.of_not_saving {c : IntentCall} (h : CallKept codec s c) (hsaving : c.saving = false)
    (hqueue : s'.queue = s.queue) (hdequeued : s'.dequeued = s.dequeued) : CallKept codec s' c := by
  unfold CallKept at h ⊢
  unfold saving at hsaving
  split at h
  · rw [hqueue, hdequeued]
    exact h
  · next hphase => simp [hphase] at hsaving
  · next hphase => simp [hphase] at hsaving
  · trivial

section

variable (h : Up codec s)
include h

section

variable (hphase : s.phase = .up) {i : Nat}
include hphase

theorem Up.take (hi : s.calls[i]? = some call)
    (hcall : call.phase = .queued) (halone : ∀ c ∈ s.calls, c.saving = false) :
    Up codec { s with calls := s.calls.set i { call with phase := .taken s.queue s.dequeued.length } } := by
  have hmoves : Moves s { s with calls := s.calls.set i { call with phase := .taken s.queue s.dequeued.length } } [] :=
    Moves.of_eq rfl rfl rfl rfl
  refine h.moves hmoves rfl rfl rfl hphase h.distinct h.issued
    (.set hi fun j c _ hj => halone c (mem_of_getElem? hj)) fun c hc => ?_
  rcases mem_or_eq_of_mem_set hc with hc | rfl
  · exact (h.calls c hc).mono hmoves rfl
  · have hown := h.calls call (mem_of_getElem? hi)
    simp only [CallKept, hcall] at hown
    exact ⟨h.covers.mono hmoves, hown⟩

theorem Up.write (hi : s.calls[i]? = some call) (hcall : call.phase = .taken intents seen) :
    Up codec { s with
      disk := s.disk.writeFile .temp (codec.encode intents)
      calls := s.calls.set i { call with phase := .written intents seen } } := by
  have hsaving : call.saving := by simp [saving, hcall]
  refine h.moves (Moves.of_eq rfl rfl rfl rfl) ?_ rfl rfl hphase h.distinct h.issued
    (h.single.move hi hsaving) fun c hc => ?_
  · simp [read_writeFile]
  · rcases h.single.mem_set hi hsaving hc with rfl | ⟨hc, hnot⟩
    · have hown := h.calls call (mem_of_getElem? hi)
      simp only [CallKept, hcall] at hown
      refine ⟨⟨hown.1.mono (Moves.of_eq rfl rfl rfl rfl), hown.2⟩, ?_⟩
      simp [read_writeFile]
    · exact (h.calls c hc).of_not_saving hnot rfl rfl

theorem Up.finish (hi : s.calls[i]? = some call) (hcall : call.phase = .written intents seen) :
    Up codec { s with
      disk := moveIntoPlace s.disk
      inFile := seen
      acknowledged := s.acknowledged ++ call.intent.toList
      calls := s.calls.set i { call with phase := .returned } } := by
  have hsaving : call.saving := by simp [saving, hcall]
  have hkept := h.calls call (mem_of_getElem? hi)
  simp only [CallKept, hcall] at hkept
  obtain ⟨⟨hcovers, hown⟩, htemp⟩ := hkept
  have hindex : (moveIntoPlace s.disk).read .index = some (codec.encode intents) := by
    obtain ⟨disk, hrename⟩ := exists_rename (exists_iff.mpr ⟨_, htemp⟩) JsonFile.index
    simp [moveIntoPlace, hrename, read_rename hrename, htemp]
  have hadded : ∀ x ∈ call.intent.toList, x ∈ intents ∨ x.id ∈ s.dequeued := fun x hx => hown x (by simpa using hx)
  constructor
  case all =>
    intro x hx hnot
    rcases mem_append.mp hx with hx | hx
    · exact h.all x hx hnot
    · have hmem := (hadded x hx).resolve_right hnot
      exact (hcovers.stale x hmem).resolve_right fun hdrop => hnot (mem_of_mem_drop hdrop)
  case distinct => exact h.distinct
  case issued => exact h.issued
  case single => exact h.single.move hi hsaving
  case calls =>
    intro c hc
    rcases h.single.mem_set hi hsaving hc with rfl | ⟨hc, hnot⟩
    · trivial
    · exact (h.calls c hc).of_not_saving hnot rfl rfl
  case file =>
    intro bytes hbytes
    cases hindex.symm.trans hbytes
    exact ⟨intents, rfl, hcovers.acknowledge rfl rfl rfl rfl hadded⟩
  case missing =>
    intro hnone
    cases hindex.symm.trans hnone
  case restoring =>
    intro hrestoring
    cases hphase.symm.trans hrestoring

theorem Up.callStep (hi : s.calls[i]? = some call)
    (halone : Alone s (.call i)) : Up codec (s.callStep codec i call) := by
  unfold IntentSystem.callStep
  split
  · next hcall => exact h.take hphase hi hcall (halone (by simp [hi, hcall]))
  · next hcall => exact h.write hphase hi hcall
  · next hcall => exact h.finish hphase hi hcall
  · exact h

end

/-! ## Crashes and starts -/

theorem Up.crash (hcovered : Covered s .crash) : Down codec s.crash := by
  have hdone : ∀ x ∈ s.queue, x.id ∉ s.completed := by
    intro x hx hmem
    refine (nodup_append.mp h.distinct).2.2 x.id ?_ x.id hmem rfl
    exact mem_append_left _ (mem_map_of_mem hx)
  refine ⟨rfl, rfl, rfl, ?_, (nodup_append.mp h.distinct).2.1,
    fun id hid => h.issued id (mem_append_right _ hid)⟩
  show ∃ intents, ((s.disk.read .index).bind codec.decode).getD [] = intents ∧ _
  cases hread : s.disk.read .index with
  | none =>
    -- nothing was restored, so every acknowledged intent has been dequeued
    have hrestored : s.restored = [] := by
      by_contra hne
      obtain ⟨bytes, hbytes⟩ := exists_iff.mp (hcovered.1 hne)
      cases hread.symm.trans hbytes
    refine ⟨[], rfl, ⟨?_, by simp, by simp, by simp⟩, .inl hread⟩
    intro x hx hnot
    rw [← hrestored]
    exact h.missing hread x hx hnot
  | some bytes =>
    obtain ⟨intents, rfl, hcovers⟩ := h.file bytes hread
    obtain ⟨decoded, hdecode, rfl⟩ := codec.decode_encode intents
    refine ⟨decoded, by simp [hdecode], ⟨hcovers.all, ?_, hcovers.nodup, hcovers.issued⟩, .inr ⟨hread, hcovers.seen_le⟩⟩
    intro x hx
    rcases hcovers.stale x hx with hqueue | hdrop
    · exact hdone x hqueue
    · exact hcovered.2 (exists_iff.mpr ⟨_, hread⟩) x.id hdrop

end

theorem Down.crash (h : Down codec s) : Down codec s.crash := by
  obtain ⟨intents, hread, hsettled, hfile⟩ := h.file
  exact ⟨rfl, rfl, rfl, ⟨intents, hread, { hsettled with }, hfile⟩,
    h.completed, h.issued⟩

theorem Down.start (h : Down codec s) (hphase : s.phase = .down) :
    Up codec (s.start codec) ∧ Settled s (s.start codec).queue := by
  obtain ⟨intents, hread, hsettled, hfile⟩ := h.file
  have hstart : s.start codec = { s with phase := .restoring, queue := intents, restored := intents } := by
    simp [IntentSystem.start, hphase, h.queue, hread]
  rw [hstart]
  refine ⟨?_, hsettled⟩
  have hrunning : s.running.map Intent.id = [] := by rw [h.running, map_nil]
  have hcalls : s.calls = [] := h.calls
  refine ⟨hsettled.all, ?_, ?_, ?_, ?_, ?_, fun _ => hsettled.all, fun _ => ⟨hcalls, rfl⟩⟩
  · rw [hrunning, append_nil, nodup_append]
    refine ⟨hsettled.nodup, h.completed, ?_⟩
    rintro id hid _ hcompleted rfl
    obtain ⟨x, hx, rfl⟩ := mem_map.mp hid
    exact hsettled.incomplete x hx hcompleted
  · intro id hid
    rw [hrunning, append_nil, mem_append] at hid
    rcases hid with hid | hid
    · obtain ⟨x, hx, rfl⟩ := mem_map.mp hid
      exact hsettled.issued x hx
    · exact h.issued id hid
  · show Sole saving s.calls
    rw [hcalls]
    exact .nil
  · intro call hcall
    simp [hcalls] at hcall
  · intro bytes hbytes
    rcases hfile with hnone | ⟨hsome, hle⟩
    · cases hnone.symm.trans hbytes
    · exact ⟨intents, Option.some.inj (hbytes.symm.trans hsome),
        ⟨hsettled.all, fun _ hx => .inl hx, hsettled.nodup, hsettled.issued, hle⟩⟩

/-- The end of a start leaves the queue alone. -/
theorem restored_start (hphase : s.phase = .restoring) :
    (s.start codec).phase = .up ∧ (s.start codec).queue = s.queue := by
  simp [start, hphase]

theorem Up.start (h : Up codec s) (hphase : s.phase = .restoring) : Up codec (s.start codec) := by
  obtain ⟨hcalls, hrestored⟩ := h.restoring hphase
  have hstart : s.start codec = { s with phase := .up, disk := (s.disk.remove .index).getD s.disk } := by
    simp [IntentSystem.start, hphase]
  rw [hstart]
  refine ⟨h.all, h.distinct, h.issued, h.single, ?_, ?_, ?_, ?_⟩
  · intro call hcall
    simp [hcalls] at hcall
  · intro bytes hbytes
    cases read_remove_getD.symm.trans hbytes
  · intro _ x hx hnot
    rw [hrestored]
    exact h.all x hx hnot
  · intro hrestoring
    cases hrestoring

theorem phase_upStep {action : IntentStep} : (s.upStep codec action).phase = s.phase := by
  cases action with
  | submit intent state =>
    simp only [upStep, submit]
    split <;> rfl
  | call i =>
    simp only [upStep]
    split
    · unfold callStep
      split <;> rfl
    · rfl
  | dequeue n =>
    simp only [upStep, dequeue]
    split <;> rfl
  | complete n =>
    simp only [upStep, complete]
    split <;> rfl
  | persist | start | crash => rfl

theorem Up.upStep (h : Up codec s) (hphase : s.phase = .up) (action : IntentStep) (hfresh : FreshId s action)
    (halone : Alone s action) : Up codec (s.upStep codec action) := by
  cases action with
  | submit intent state => exact h.submit hphase state hfresh
  | persist => exact h.persist hphase
  | call i =>
    simp only [IntentSystem.upStep]
    cases hi : s.calls[i]? with
    | none => exact h
    | some call => exact h.callStep hphase hi halone
  | dequeue n => exact h.dequeue hphase n
  | complete n => exact h.complete hphase n
  | start | crash => exact h

theorem Kept.up (hphase : s.phase ≠ .down) : Kept codec s ↔ Up codec s := by
  unfold Kept
  split
  · next hdown => exact absurd hdown hphase
  · rfl
  · rfl

theorem Kept.crash (h : Kept codec s) (hcovered : Covered s .crash) : Kept codec s.crash := by
  by_cases hphase : s.phase = .down
  · simp only [Kept, hphase] at h
    exact h.crash
  · exact ((Kept.up hphase).mp h).crash hcovered

theorem Kept.start (h : Kept codec s) : Kept codec (s.start codec) := by
  cases hphase : s.phase with
  | down =>
    have hrestoring : (s.start codec).phase ≠ .down := by simp [IntentSystem.start, hphase]
    simp only [Kept, hphase] at h
    exact (Kept.up hrestoring).mpr (h.start hphase).1
  | restoring =>
    have hstarted : (s.start codec).phase ≠ .down := by simp [IntentSystem.start, hphase]
    exact (Kept.up hstarted).mpr (((Kept.up (by simp [hphase])).mp h).start hphase)
  | up =>
    have hsame : s.start codec = s := by simp [IntentSystem.start, hphase]
    rwa [hsame]

theorem Kept.step (h : Kept codec s) (action : IntentStep) (horderly : Orderly s action) :
    Kept codec (s.step codec action) := by
  obtain ⟨hfresh, halone, hcovered⟩ := horderly
  have hprocess : Kept codec (if s.phase = .up then s.upStep codec action else s) := by
    split
    · next hphase =>
      have hup := (Kept.up (by simp [hphase])).mp h
      refine (Kept.up ?_).mpr (hup.upStep hphase action hfresh halone)
      rw [phase_upStep, hphase]
      simp
    · exact h
  cases action with
  | crash => exact h.crash hcovered
  | start => exact h.start
  | submit | persist | call | dequeue | complete => exact hprocess

theorem Kept.fresh (codec : Codec (List Intent) β Eq) : Kept codec (fresh : IntentSystem β) := by
  refine ⟨rfl, rfl, rfl, ⟨[], rfl, ⟨?_, ?_, nodup_nil, ?_⟩, .inl rfl⟩, nodup_nil, ?_⟩ <;>
    exact fun _ h => absurd h not_mem_nil

/-! ## Runs -/

/-- The queue that the next process has when it has started. -/
theorem intents_survive_restart (codec : Codec (List Intent) β Eq) (steps : List IntentStep)
    (horderly : Throughout (step codec) Orderly fresh steps) (hdown : (run codec fresh steps).phase = .down) :
    let s := run codec fresh steps
    let restarted := run codec s [.start, .start]
    restarted.phase = .up ∧
      (∀ intent ∈ s.acknowledged, intent.id ∉ s.dequeued → intent ∈ restarted.queue) ∧
      (∀ intent ∈ restarted.queue, intent.id ∉ s.completed) ∧
      (restarted.queue.map Intent.id).Nodup := by
  intro s restarted
  have hkept : Kept codec s := horderly.invariant (fun s action h hs => h.step action hs) (Kept.fresh codec)
  have hphase : s.phase = .down := hdown
  simp only [Kept, hphase] at hkept
  have hrestoring : (s.start codec).phase = .restoring := by simp [start, hphase]
  obtain ⟨hstarted, hqueue⟩ := restored_start hrestoring
  have hsettled := hqueue ▸ (hkept.start hphase).2
  exact ⟨hstarted, hsettled.all, hsettled.incomplete, hsettled.nodup⟩

/-! ### Two runs -/

def sampleCodec : Codec (List Intent) (List Intent) Eq := .plain fun _ => rfl

def sampleIntent (id : String) (submittedAt : Nat) : Intent := ⟨id, .medium, "review", none, none, submittedAt⟩

/-- One intent is executed, the other one waits; a periodic save comes before each crash. -/
def savedRun : List IntentStep :=
  [.start, .start, .submit (sampleIntent "a" 1) none, .call 0, .call 0, .call 0, .submit (sampleIntent "b" 2) none,
    .call 1, .call 1, .call 1, .dequeue 0, .complete 0, .persist, .call 2, .call 2, .call 2, .crash, .start, .start,
    .persist, .call 0, .call 0, .call 0, .crash]

theorem savedRun_survives :
    let s := run sampleCodec fresh savedRun
    let restarted := run sampleCodec s [.start, .start]
    restarted.phase = .up ∧
      (∀ intent ∈ s.acknowledged, intent.id ∉ s.dequeued → intent ∈ restarted.queue) ∧
      (∀ intent ∈ restarted.queue, intent.id ∉ s.completed) ∧
      (restarted.queue.map Intent.id).Nodup :=
  intents_survive_restart sampleCodec savedRun (by decide +kernel) (by decide +kernel)

/-- A submission, and two crashes without a submission or a periodic save between them. -/
def twiceCrashed : List IntentStep :=
  [.start, .start, .submit (sampleIntent "a" 1) none, .call 0, .call 0, .call 0, .crash, .start, .start, .crash]

/-- A submission whose intent is executed before the crash. -/
def executed : List IntentStep :=
  [.start, .start, .submit (sampleIntent "a" 1) none, .call 0, .call 0, .call 0, .dequeue 0, .complete 0, .crash]

theorem intent_lost_and_intent_replayed :
    let lost := run sampleCodec fresh twiceCrashed
    let replayed := run sampleCodec fresh executed
    (lost.acknowledged = [sampleIntent "a" 1] ∧ lost.dequeued = [] ∧
        (run sampleCodec lost [.start, .start]).queue = []) ∧
      replayed.completed = ["a"] ∧ (run sampleCodec replayed [.start, .start]).queue = [sampleIntent "a" 1] := by
  decide +kernel

end Plico.Kernel.IntentSystem
