import Plico.Framework.Fold
import Plico.Framework.Log
import Plico.Framework.Run
import Plico.Model.Kernel.EventBus

/-!
# What subscribers get

As long as no receiver falls behind, the polls of a subscription have returned exactly the wanted messages from the
position at which its receiver was made up to the one that the last poll reached (`Following`). A receiver that has
fallen behind is served from the log, which starts one event too late, and its next poll returns again what the
channel kept.
-/

namespace Plico.Kernel

open Channel AList List

namespace BusSystem

variable {s s' : BusSystem} {c : Created} {id : String} {events : List KernelEvent}

/-! ## Poll results -/

def pollsOf (s : BusSystem) (id : String) : List Polled := s.polled.filter fun p => p.id = id

/-- The concatenation of the results of the polls of a subscription. -/
def delivered (s : BusSystem) (id : String) : List KernelEvent := (s.pollsOf id).flatMap Polled.events

/-- How many messages had been sent when the last poll found no more. -/
def upTo (s : BusSystem) (c : Created) : Nat := ((s.pollsOf c.id).getLast?.map Polled.upTo).getD c.position

/-- The wanted messages from one position up to another. -/
def wantedSpan (s : BusSystem) (filter : Option EventFilter) (start stop : Nat) : List KernelEvent :=
  (s.bus.sender.span start stop).filter (wanted filter)

variable {filter : Option EventFilter} {receiver current : Nat}

theorem wantedSpan_append {i j k : Nat} (hij : i ≤ j) (hjk : j ≤ k) (hk : k ≤ s.bus.sender.sent.length) :
    s.wantedSpan filter i j ++ s.wantedSpan filter j k = s.wantedSpan filter i k := by
  unfold wantedSpan
  rw [← filter_append, span_append hij hjk hk]

theorem wantedSpan_of_prefix {i j : Nat} (h : s.bus.sender.sent <+: s'.bus.sender.sent)
    (hj : j ≤ s.bus.sender.sent.length) : s'.wantedSpan filter i j = s.wantedSpan filter i j :=
  congrArg _ (span_of_extended h hj)

theorem wantedSpan_succ {i next : Nat} {event : KernelEvent} (hi : i ≤ next)
    (h : s.bus.sender.sent[next]? = some event) : s.wantedSpan filter i (next + 1) =
      if wanted filter event then s.wantedSpan filter i next ++ [event] else s.wantedSpan filter i next := by
  unfold wantedSpan
  rw [span_succ hi h]
  by_cases hw : wanted filter event <;> simp [hw]

/-! ## One subscription -/

/-- Where the receiver stands, and what a poll that is under way has collected. -/
def InHand (s : BusSystem) (c : Created) (sub : Subscription) : Option Polling → Prop
  | none => sub.receiver = s.upTo c
  | some (.receiving events) => events = s.wantedSpan c.filter (s.upTo c) sub.receiver
  | some (.recovering _) => False
  | some (.finishing events stop) => stop = sub.receiver ∧ events = s.wantedSpan c.filter (s.upTo c) sub.receiver

structure Following (s : BusSystem) (c : Created) : Prop where
  start : c.position ≤ s.upTo c
  stop : s.upTo c ≤ s.bus.sender.sent.length
  past : s.delivered c.id = s.wantedSpan c.filter c.position (s.upTo c)
  present : ∀ sub, s.bus.subscriptions.lookup c.id = some sub →
    sub.filter = c.filter ∧ s.upTo c ≤ sub.receiver ∧ sub.receiver ≤ s.bus.sender.sent.length ∧
      s.InHand c sub (s.polling.lookup c.id)

/-- A step that leaves the subscription and its polls alone; messages may have been sent. -/
theorem Following.of_same (h : Following s c) (hsent : s.bus.sender.sent <+: s'.bus.sender.sent)
    (hsub : s'.bus.subscriptions.lookup c.id = s.bus.subscriptions.lookup c.id)
    (hpolling : s'.polling.lookup c.id = s.polling.lookup c.id) (hpolls : s'.pollsOf c.id = s.pollsOf c.id) :
    Following s' c := by
  have hupTo : s'.upTo c = s.upTo c := by simp only [upTo, hpolls]
  have hlength := hsent.length_le
  refine ⟨hupTo ▸ h.start, hupTo ▸ h.stop.trans hlength, ?_, fun sub hlookup => ?_⟩
  · rw [delivered, hpolls, hupTo, wantedSpan_of_prefix hsent h.stop]
    exact h.past
  · rw [hsub] at hlookup
    obtain ⟨hfilter, hstart, hstop, hhand⟩ := h.present sub hlookup
    refine ⟨hfilter, hupTo ▸ hstart, hstop.trans hlength, ?_⟩
    rw [hpolling]
    unfold InHand
    rw [hupTo, wantedSpan_of_prefix hsent hstop]
    exact hhand

/-! ## Names -/

/-- Where the receiver stands that a call has made. -/
def startOf : Subscribing → Nat
  | .named _ => 0
  | .listening _ receiver | .positioned _ receiver _ => receiver

/-- Every subscription has an id of its own, and what is under way belongs to known subscriptions. -/
structure Named (s : BusSystem) : Prop where
  created : ∀ c ∈ s.created, ∃ n < s.bus.nextSubId, c.id = subscriptionId n
  distinct : (s.created.map Created.id).Nodup
  subscribing : ∀ id p, s.subscribing.lookup id = some p →
    (∃ n < s.bus.nextSubId, id = subscriptionId n) ∧ (∀ c ∈ s.created, c.id ≠ id) ∧
      startOf p ≤ s.bus.sender.sent.length
  known : ∀ id ∈ s.bus.subscriptions, ∃ c ∈ s.created, c.id = id
  polled : ∀ p ∈ s.polled, ∃ c ∈ s.created, c.id = p.id

theorem subscriptionId_inj {m n : Nat} (h : subscriptionId m = subscriptionId n) : m = n := by
  have hlist := congrArg String.toList h
  simp only [subscriptionId, String.toList_append] at hlist
  exact toString_inj (String.toList_inj.mp (append_cancel_left hlist))

theorem Named.new (broadcastCapacity logCapacity : Nat) : Named (.new broadcastCapacity logCapacity) where
  created _ h := absurd h not_mem_nil
  distinct := nodup_nil
  subscribing _ _ h := by cases h
  known _ h := absurd h not_mem_nil
  polled _ h := absurd h not_mem_nil

/-- A step that changes neither the names nor the table of subscriptions under way. -/
theorem Named.of_same (h : Named s) (hsent : s.bus.sender.sent <+: s'.bus.sender.sent)
    (hnext : s'.bus.nextSubId = s.bus.nextSubId) (hcreated : s'.created = s.created)
    (hsubscribing : s'.subscribing = s.subscribing) (hknown : ∀ id ∈ s'.bus.subscriptions, id ∈ s.bus.subscriptions)
    (hpolled : ∀ p ∈ s'.polled, p ∈ s.polled ∨ p.id ∈ s.bus.subscriptions) : Named s' where
  created := by rw [hcreated, hnext]; exact h.created
  distinct := by rw [hcreated]; exact h.distinct
  subscribing id p hlookup := by
    rw [hsubscribing] at hlookup
    obtain ⟨hname, hfresh, hstart⟩ := h.subscribing id p hlookup
    rw [hnext, hcreated]
    exact ⟨hname, hfresh, hstart.trans hsent.length_le⟩
  known id hid := by
    rw [hcreated]
    exact h.known id (hknown id hid)
  polled p hp := by
    rw [hcreated]
    exact (hpolled p hp).elim (h.polled p) (h.known p.id)

/-! ## Steps -/

/-- What holds along every run in which no receiver falls behind. -/
structure Sound (s : BusSystem) : Prop where
  named : Named s
  following : ∀ c ∈ s.created, Following s c

theorem Sound.of_same (h : Sound s) (hsent : s.bus.sender.sent <+: s'.bus.sender.sent)
    (hnext : s'.bus.nextSubId = s.bus.nextSubId) (hsubs : s'.bus.subscriptions = s.bus.subscriptions)
    (hsubscribing : s'.subscribing = s.subscribing) (hpolling : s'.polling = s.polling)
    (hcreated : s'.created = s.created) (hpolled : s'.polled = s.polled) : Sound s' where
  named := h.named.of_same hsent hnext hcreated hsubscribing (fun _ hid => hsubs ▸ hid) fun _ hp => .inl (hpolled ▸ hp)
  following c hc := by
    refine (h.following c (hcreated ▸ hc)).of_same hsent (by rw [hsubs]) (by rw [hpolling]) ?_
    simp only [pollsOf, hpolled]

theorem Sound.emit (h : Sound s) (event : KernelEvent) (now : Nat) : Sound (s.emit event now) :=
  h.of_same (prefix_refl _) rfl rfl rfl rfl rfl rfl

theorem Sound.emitStep (h : Sound s) (seq : Nat) : Sound (s.emitStep seq) := by
  unfold BusSystem.emitStep
  split
  · exact h.of_same (prefix_refl _) rfl rfl rfl rfl rfl rfl
  · exact h.of_same (prefix_append _ _) rfl rfl rfl rfl rfl rfl
  · exact h

theorem Sound.subscribe (h : Sound s) (filter : Option EventFilter) : Sound (s.subscribe filter) where
  named := {
    created := fun c hc => by
      obtain ⟨n, hn, hid⟩ := h.named.created c hc
      exact ⟨n, Nat.lt_succ_of_lt hn, hid⟩
    distinct := h.named.distinct
    subscribing := fun id p hlookup => by
      obtain ⟨rfl, rfl⟩ | ⟨-, hlookup⟩ := lookup_insert_eq_some.mp hlookup
      · refine ⟨⟨_, Nat.lt_succ_self _, rfl⟩, fun c hc hid => ?_, Nat.zero_le _⟩
        obtain ⟨n, hn, hid'⟩ := h.named.created c hc
        exact absurd (subscriptionId_inj (hid'.symm.trans hid)) (Nat.ne_of_lt hn)
      · obtain ⟨⟨n, hn, hid⟩, hrest⟩ := h.named.subscribing id p hlookup
        exact ⟨⟨n, Nat.lt_succ_of_lt hn, hid⟩, hrest⟩
    known := h.named.known
    polled := h.named.polled }
  following c hc := (h.following c hc).of_same (prefix_refl _) rfl rfl rfl

/-- The calls that are under way keep their names. -/
theorem Named.advance (h : Named s) {p p' : Subscribing} (hlookup : s.subscribing.lookup id = some p)
    (hp' : startOf p' ≤ s.bus.sender.sent.length) :
    Named { s with subscribing := s.subscribing.insert id p' } where
  created := h.created
  distinct := h.distinct
  subscribing id' q hq := by
    obtain ⟨rfl, rfl⟩ | ⟨-, hq⟩ := lookup_insert_eq_some.mp hq
    · obtain ⟨hname, hfresh, -⟩ := h.subscribing id' p hlookup
      exact ⟨hname, hfresh, hp'⟩
    · exact h.subscribing id' q hq
  known := h.known
  polled := h.polled

/-- The new subscription has no polls yet, and its receiver stands where it was made. -/
theorem Following.of_created (h : Named s)
    (hlookup : s.subscribing.lookup id = some (.positioned filter receiver current))
    (hpolling : s.polling.lookup id = none) :
    Following (s.insertSubscription id filter receiver current) ⟨id, filter, receiver⟩ := by
  obtain ⟨-, hfresh, hreceiver⟩ := h.subscribing id _ hlookup
  have hpolls : (s.insertSubscription id filter receiver current).pollsOf id = [] := by
    refine filter_eq_nil_iff.mpr fun p hp hid => ?_
    obtain ⟨c, hc, hcid⟩ := h.polled p hp
    exact hfresh c hc (hcid.trans (of_decide_eq_true hid))
  have hupTo : (s.insertSubscription id filter receiver current).upTo ⟨id, filter, receiver⟩ = receiver := by
    simp [upTo, hpolls]
  refine ⟨hupTo.ge, hupTo.le.trans hreceiver, ?_, fun sub hsub => ?_⟩
  · rw [delivered, hpolls, hupTo, wantedSpan, span_self]
    rfl
  · obtain ⟨-, rfl⟩ | ⟨hne, -⟩ := lookup_insert_eq_some.mp hsub
    · refine ⟨rfl, hupTo.le, hreceiver, ?_⟩
      rw [show (s.insertSubscription id filter receiver current).polling.lookup id = none from hpolling]
      exact hupTo.symm
    · exact absurd rfl hne

theorem Sound.insertSubscription (h : Sound s)
    (hlookup : s.subscribing.lookup id = some (.positioned filter receiver current))
    (hpolling : s.polling.lookup id = none) : Sound (s.insertSubscription id filter receiver current) := by
  obtain ⟨hname, hfresh, -⟩ := h.named.subscribing id _ hlookup
  refine ⟨⟨fun c hc => ?_, ?_, fun id' p hp => ?_, fun id' hid' => ?_, fun p hp => ?_⟩, fun c hc => ?_⟩
  · rcases mem_concat.mp hc with hc | rfl
    · exact h.named.created c hc
    · exact hname
  · rw [show (s.insertSubscription id filter receiver current).created.map Created.id = s.created.map Created.id ++ [id]
      from map_append]
    refine nodup_append.mpr ⟨h.named.distinct, nodup_singleton _, fun a ha b hb hab => ?_⟩
    obtain ⟨c, hc, rfl⟩ := mem_map.mp ha
    exact hfresh c hc (hab.trans (mem_singleton.mp hb))
  · obtain ⟨hne, hp⟩ := lookup_erase_eq_some.mp hp
    obtain ⟨hname', hfresh', hstart⟩ := h.named.subscribing id' p hp
    exact ⟨hname', forall_mem_append.mpr ⟨hfresh', forall_mem_singleton.mpr (Ne.symm hne)⟩, hstart⟩
  · rcases (mem_insert _).mp hid' with rfl | hid'
    · exact ⟨_, mem_append_right _ (mem_singleton.mpr rfl), rfl⟩
    · obtain ⟨c, hc, hid⟩ := h.named.known id' hid'
      exact ⟨c, mem_append_left _ hc, hid⟩
  · obtain ⟨c, hc, hid⟩ := h.named.polled p hp
    exact ⟨c, mem_append_left _ hc, hid⟩
  · rcases mem_concat.mp hc with hc | rfl
    · refine (h.following c hc).of_same (prefix_refl _) ?_ rfl rfl
      exact lookup_insert_ne (hfresh c hc)
    · exact .of_created h.named hlookup hpolling

theorem lookup_of_keys_nil {p : AList (fun _ : String => Polling)} (h : p.keys = []) : p.lookup id = none := by
  refine AList.lookup_eq_none.mpr fun hmem => ?_
  rw [AList.mem_keys, h] at hmem
  exact absurd hmem not_mem_nil

theorem Sound.subscribeStep (h : Sound s) (id : String) : Sound (s.subscribeStep id) := by
  unfold BusSystem.subscribeStep
  split
  · rename_i filter hlookup
    exact ⟨h.named.advance hlookup (Nat.le_refl _),
      fun c hc => (h.following c hc).of_same (prefix_refl _) rfl rfl rfl⟩
  · rename_i filter receiver hlookup
    exact ⟨h.named.advance hlookup (h.named.subscribing id _ hlookup).2.2,
      fun c hc => (h.following c hc).of_same (prefix_refl _) rfl rfl rfl⟩
  · rename_i filter receiver current hlookup
    split
    · next hfree => exact h.insertSubscription hlookup (lookup_of_keys_nil hfree)
    · exact h
  · exact h

theorem Sound.unsubscribe (h : Sound s) (id : String) : Sound (s.unsubscribe id) := by
  unfold BusSystem.unsubscribe
  split
  · refine ⟨h.named.of_same (prefix_refl _) rfl rfl rfl (fun _ hid => (mem_erase.mp hid).2)
      fun p hp => .inl hp, fun c hc => ?_⟩
    obtain ⟨hstart, hstop, hpast, hpresent⟩ := h.following c hc
    exact ⟨hstart, hstop, hpast, fun sub hsub => hpresent sub (lookup_erase_eq_some.mp hsub).2⟩
  · exact h

/-! ### Polls -/

variable {sub : Subscription} {sub' : Subscription} {stop : Nat}

theorem mem_of_setSubscription (hsub : s.bus.subscriptions.lookup id = some sub) :
    ∀ id' ∈ (s.setSubscription id sub').bus.subscriptions, id' ∈ s.bus.subscriptions := by
  intro id' hid'
  rcases (mem_insert _).mp hid' with rfl | hid'
  · exact lookup_isSome.mp (Option.isSome_of_eq_some hsub)
  · exact hid'

theorem Sound.poll (h : Sound s) (id : String) : Sound (s.poll id) := by
  unfold BusSystem.poll
  split
  · rename_i sub hsub hfree
    refine ⟨h.named.of_same (prefix_refl _) rfl rfl rfl (fun _ hid => hid) fun p hp => .inl hp, fun c hc => ?_⟩
    by_cases hid : c.id = id
    · subst hid
      obtain ⟨hstart, hstop, hpast, hpresent⟩ := h.following c hc
      refine ⟨hstart, hstop, hpast, fun sub' hsub' => ?_⟩
      obtain ⟨hfilter, hfrom, hto, hhand⟩ := hpresent sub' hsub'
      rw [hfree] at hhand
      refine ⟨hfilter, hfrom, hto, ?_⟩
      rw [show lookup c.id (s.polling.insert c.id (.receiving [])) = some (.receiving []) from lookup_insert _]
      have hnone : s.wantedSpan c.filter (s.upTo c) sub'.receiver = [] := by
        rw [hhand, wantedSpan, span_self]
        rfl
      exact hnone.symm
    · exact (h.following c hc).of_same (prefix_refl _) rfl (lookup_insert_ne hid) rfl
  · exact h

/-- The poll of one subscription goes on; nothing is sent and nothing returned. -/
theorem Sound.continue (h : Sound s) {p : Polling}
    (hsub : s.bus.subscriptions.lookup id = some sub) (hfilter : sub'.filter = sub.filter)
    (hreceiver : sub.receiver ≤ sub'.receiver)
    (hhand : ∀ c ∈ s.created, c.id = id → sub'.receiver ≤ s.bus.sender.sent.length ∧ s.InHand c sub' (some p)) :
    Sound ((s.setSubscription id sub').setPolling id p) := by
  refine ⟨h.named.of_same (prefix_refl _) rfl rfl rfl (mem_of_setSubscription hsub) fun p hp => .inl hp,
    fun c hc => ?_⟩
  by_cases hid : c.id = id
  · subst hid
    obtain ⟨hstart, hstop, hpast, hpresent⟩ := h.following c hc
    obtain ⟨hfilter', hfrom, -, -⟩ := hpresent sub hsub
    refine ⟨hstart, hstop, hpast, fun x hx => ?_⟩
    cases (lookup_insert _).symm.trans hx
    obtain ⟨hlength, hhand⟩ := hhand c hc rfl
    refine ⟨hfilter.trans hfilter', hfrom.trans hreceiver, hlength, ?_⟩
    rw [show ((s.setSubscription c.id sub').setPolling c.id p).polling.lookup c.id = some p from lookup_insert _]
    exact hhand
  · exact (h.following c hc).of_same (prefix_refl _) (lookup_insert_ne hid) (lookup_insert_ne hid) rfl

/-- The receiver of the subscription has not fallen behind when a poll reads from it. -/
def KeepsUp (s : BusSystem) : BusAction → Prop
  | .pollStep id =>
    match s.bus.subscriptions.lookup id, s.polling.lookup id with
    | some sub, some (.receiving _) => s.bus.sender.sent.length ≤ sub.receiver + s.bus.sender.capacity
    | _, _ => True
  | _ => True

theorem Sound.receive (h : Sound s) (hsub : s.bus.subscriptions.lookup id = some sub)
    (hpolling : s.polling.lookup id = some (.receiving events))
    (hup : s.bus.sender.sent.length ≤ sub.receiver + s.bus.sender.capacity) : Sound (s.receive id sub events) := by
  have hhand : ∀ c ∈ s.created, c.id = id → sub.filter = c.filter ∧ s.upTo c ≤ sub.receiver ∧
      sub.receiver ≤ s.bus.sender.sent.length ∧ events = s.wantedSpan c.filter (s.upTo c) sub.receiver := by
    rintro c hc rfl
    obtain ⟨hfilter, hfrom, hto, hhand⟩ := (h.following c hc).present sub hsub
    rw [hpolling] at hhand
    exact ⟨hfilter, hfrom, hto, hhand⟩
  unfold BusSystem.receive
  rw [tryRecv_of_le hup]
  cases hnext : s.bus.sender.sent[sub.receiver]? with
  | some event =>
    refine h.continue hsub rfl (Nat.le_succ _) fun c hc hid => ?_
    obtain ⟨hfilter, hfrom, -, hevents⟩ := hhand c hc hid
    refine ⟨(List.getElem?_eq_some_iff.mp hnext).1, ?_⟩
    dsimp only [InHand]
    rw [wantedSpan_succ hfrom hnext, hfilter, hevents]
  | none =>
    refine h.continue hsub rfl (Nat.le_refl _) fun c hc hid => ?_
    obtain ⟨-, -, hto, hevents⟩ := hhand c hc hid
    exact ⟨hto, Nat.le_antisymm (getElem?_eq_none_iff.mp hnext) hto, hevents⟩

theorem pollsOf_finish {id' : String} :
    (s.finish id sub events stop).pollsOf id' =
      if id' = id then s.pollsOf id ++ [⟨id, events, stop⟩] else s.pollsOf id' := by
  unfold pollsOf BusSystem.finish
  by_cases hid : id' = id
  · simp [hid]
  · simp [hid, Ne.symm hid]

theorem Sound.finish (h : Sound s)
    (hsub : s.bus.subscriptions.lookup id = some sub) (hpolling : s.polling.lookup id = some (.finishing events stop)) :
    Sound (s.finish id sub events stop) := by
  refine ⟨h.named.of_same (prefix_refl _) rfl rfl rfl (mem_of_setSubscription hsub) fun p hp => ?_, fun c hc => ?_⟩
  · refine (mem_append.mp hp).imp_right fun hp => ?_
    rw [mem_singleton.mp hp]
    exact lookup_isSome.mp (Option.isSome_of_eq_some hsub)
  by_cases hid : c.id = id
  · subst hid
    obtain ⟨hstart, hstop, hpast, hpresent⟩ := h.following c hc
    obtain ⟨hfilter, hfrom, hto, hhand⟩ := hpresent sub hsub
    rw [hpolling] at hhand
    obtain ⟨rfl, hevents⟩ := hhand
    have hupTo : (s.finish c.id sub events sub.receiver).upTo c = sub.receiver := by
      rw [upTo, pollsOf_finish, if_pos rfl, getLast?_concat]
      rfl
    refine ⟨(hstart.trans hfrom).trans hupTo.ge, hupTo.le.trans hto, ?_, fun x hx => ?_⟩
    · rw [hupTo, delivered, pollsOf_finish, if_pos rfl, flatMap_append, flatMap_singleton]
      exact (congrArg₂ _ hpast hevents).trans (wantedSpan_append hstart hfrom hto)
    · cases (lookup_insert _).symm.trans hx
      have hsame : ∀ {p : Prop} [Decidable p] (n : Nat), (if p then sub else { sub with lastSeenSeq := n }).filter =
          sub.filter ∧ (if p then sub else { sub with lastSeenSeq := n }).receiver = sub.receiver := by
        intro p _ n
        split <;> exact ⟨rfl, rfl⟩
      rw [(hsame _).1, (hsame _).2, hupTo]
      refine ⟨hfilter, Nat.le_refl _, hto, ?_⟩
      rw [show (s.finish c.id sub events sub.receiver).polling.lookup c.id = none from lookup_erase _ _]
      exact (hsame _).2.trans hupTo.symm
  · refine (h.following c hc).of_same (prefix_refl _) (lookup_insert_ne hid) (lookup_erase_ne hid) ?_
    rw [pollsOf_finish, if_neg hid]

theorem Sound.pollStep (h : Sound s) (hup : KeepsUp s (.pollStep id)) : Sound (s.pollStep id) := by
  unfold BusSystem.pollStep
  split
  · rename_i sub events hsub hpolling
    simp only [KeepsUp, hsub, hpolling] at hup
    exact h.receive hsub hpolling hup
  · rename_i sub events hsub hpolling
    -- no receiver has fallen behind, so no poll is recovering
    obtain ⟨c, hc, rfl⟩ := h.named.known id (lookup_isSome.mp (Option.isSome_of_eq_some hsub))
    obtain ⟨-, -, -, hhand⟩ := (h.following c hc).present sub hsub
    rw [hpolling] at hhand
    exact hhand.elim
  · next sub events stop hsub hpolling => exact h.finish hsub hpolling
  · exact h

theorem Sound.step (h : Sound s) {action : BusAction} (hup : KeepsUp s action) : Sound (s.step action) := by
  cases action with
  | emit event now => exact h.emit event now
  | emitStep seq => exact h.emitStep seq
  | subscribe filter => exact h.subscribe filter
  | subscribeStep id => exact h.subscribeStep id
  | poll id => exact h.poll id
  | pollStep id => exact h.pollStep hup
  | unsubscribe id => exact h.unsubscribe id

/-! ## Runs -/

/-- In every run in which no receiver falls behind, each subscription has an id of its own and its polls have
returned, in order and once each, the wanted messages sent after its receiver was made and before its last poll found
no more. -/
theorem subscribers_miss_nothing {broadcastCapacity logCapacity : Nat} {actions : List BusAction}
    (hrun : Throughout step KeepsUp (.new broadcastCapacity logCapacity) actions) :
    let s := run (.new broadcastCapacity logCapacity) actions
    (s.created.map Created.id).Nodup ∧ ∀ c ∈ s.created, c.position ≤ s.upTo c ∧
      s.upTo c ≤ s.bus.sender.sent.length ∧
      s.delivered c.id = ((s.bus.sender.sent.take (s.upTo c)).drop c.position).filter (wanted c.filter) := by
  have hsound : Sound (run (.new broadcastCapacity logCapacity) actions) :=
    hrun.invariant (fun _ _ h => h.step) ⟨.new _ _, fun c hc => absurd hc not_mem_nil⟩
  refine ⟨hsound.named.distinct, fun c hc => ?_⟩
  obtain ⟨hstart, hstop, hpast, -⟩ := hsound.following c hc
  exact ⟨hstart, hstop, hpast⟩

instance (s : BusSystem) (action : BusAction) : Decidable (KeepsUp s action) := by
  unfold KeepsUp
  split
  · split <;> infer_instance
  · infer_instance

/-- Two emits overtake each other while a subscription for completed intents is made, and a third comes during a poll.
-/
def overlappingRun : List BusAction :=
  [.subscribe (some ⟨some ["IntentCompleted"], none⟩), .emit (.intentCompleted "a" true) 1, .subscribeStep "sub-1",
    .emit (.intentCompleted "b" true) 2, .emitStep 2, .subscribeStep "sub-1", .emitStep 1, .emitStep 2,
    .subscribeStep "sub-1", .poll "sub-1", .emitStep 1, .pollStep "sub-1", .emit (.memoryStored "agent" "working") 3,
    .emitStep 3, .emitStep 3, .pollStep "sub-1", .pollStep "sub-1", .pollStep "sub-1", .pollStep "sub-1",
    .poll "sub-1", .unsubscribe "sub-1"]

theorem overlapping_run_delivered :
    let s := run (.new defaultBroadcastCapacity defaultEventLogCapacity) overlappingRun
    s.delivered "sub-1" = [.intentCompleted "b" true, .intentCompleted "a" true] ∧
      ∀ c ∈ s.created, s.delivered c.id =
        ((s.bus.sender.sent.take (s.upTo c)).drop c.position).filter (wanted c.filter) := by
  exact ⟨by decide +kernel, fun c hc => ((subscribers_miss_nothing (by decide +kernel)).2 c hc).2.2⟩

/-! ## A receiver that has fallen behind -/

section Overflow

variable {capacity n : Nat} {ev : Nat → KernelEvent}

/-- One subscription without a filter, and `n` events since it was made. -/
structure Emitted (capacity logCapacity : Nat) (ev : Nat → KernelEvent) (n : Nat) (s : BusSystem) : Prop where
  sender : s.bus.sender = ⟨capacity, (List.range n).map ev⟩
  log : s.bus.eventLog = ⟨(List.range n).map fun i => ⟨i + 1, 0, ev i⟩, logCapacity, 0⟩
  nextSeq : s.bus.nextSeq = n + 1
  subscription : s.bus.subscriptions.lookup (subscriptionId 1) = some ⟨0, none, 1⟩
  polling : s.polling.lookup (subscriptionId 1) = none
  polled : s.polled = []

def subscribeCall (id : String) : List BusAction :=
  [.subscribe none, .subscribeStep id, .subscribeStep id, .subscribeStep id]

def emitCall (event : KernelEvent) (seq : Nat) : List BusAction :=
  [.emit event 0, .emitStep seq, .emitStep seq]

/-- An undisturbed subscription. -/
theorem run_subscribe (hid : id = subscriptionId s.bus.nextSubId) (hfree : s.polling.keys = []) :
    s.run (subscribeCall id) = insertSubscription id none s.bus.sender.sent.length s.bus.nextSeq { s with
      bus := { s.bus with nextSubId := s.bus.nextSubId + 1 }
      subscribing :=
      ((s.subscribing.insert id (.named none)).insert id (.listening none s.bus.sender.sent.length)).insert id
        (.positioned none s.bus.sender.sent.length s.bus.nextSeq) } := by
  simp [run, subscribeCall, step, subscribe, subscribeStep, Channel.subscribe, ← hid, hfree]

theorem emitted_subscribe {logCapacity : Nat} :
    Emitted capacity logCapacity ev 0 (run (.new capacity logCapacity) (subscribeCall (subscriptionId 1))) := by
  have hid : subscriptionId 1 = subscriptionId (BusSystem.new capacity logCapacity).bus.nextSubId := rfl
  rw [run_subscribe hid rfl]
  exact ⟨rfl, rfl, rfl, lookup_insert _, rfl, rfl⟩

variable {logCapacity : Nat}

theorem emitted_emit (h : Emitted capacity logCapacity ev n s) (hn : n < logCapacity) :
    Emitted capacity logCapacity ev (n + 1) (s.run (emitCall (ev n) (n + 1))) := by
  obtain ⟨hsender, hlog, hseq, hsub, hpolling, hpolled⟩ := h
  have hrun : s.run (emitCall (ev n) (n + 1)) = { s with
      bus := { s.bus with
        nextSeq := n + 2
        eventLog := s.bus.eventLog.push ⟨n + 1, 0, ev n⟩
        sender := s.bus.sender.send (ev n) }
      emitting := (((s.emitting.insert (n + 1) (.reserved ⟨n + 1, 0, ev n⟩)).insert (n + 1) (.logged (ev n))).erase
        (n + 1)) } := by
    simp [run, emitCall, step, emit, emitStep, hseq]
  rw [hrun]
  refine ⟨?_, ?_, rfl, hsub, hpolling, hpolled⟩
  · rw [hsender]
    simp [send, range_succ]
  · rw [hlog]
    simp [RingEventLog.push, range_succ, Nat.not_le.mpr hn]

/-- The calls of `emit` for the first events. -/
def emitCalls (ev : Nat → KernelEvent) (n : Nat) : List BusAction :=
  (List.range n).flatMap fun i => emitCall (ev i) (i + 1)

theorem emitted_run (hn : n ≤ logCapacity) :
    Emitted capacity logCapacity ev n
      (run (.new capacity logCapacity) (subscribeCall (subscriptionId 1) ++ emitCalls ev n)) := by
  induction n with
  | zero =>
    exact emitted_subscribe
  | succ n ih =>
    have hsplit : emitCalls ev (n + 1) = emitCalls ev n ++ emitCall (ev n) (n + 1) := by
      simp [emitCalls, range_succ]
    rw [hsplit, ← append_assoc, run, foldl_append]
    exact emitted_emit (ih (Nat.le_of_succ_le hn)) hn

/-- A poll that is not disturbed and whose receiver has not fallen behind returns all that is left. -/
theorem run_receiving (hsub : s.bus.subscriptions.lookup id = some sub)
    (hpolling : s.polling.lookup id = some (.receiving events))
    (hup : s.bus.sender.sent.length ≤ sub.receiver + s.bus.sender.capacity) {m : Nat}
    (hm : s.bus.sender.sent.length = sub.receiver + m) :
    (s.run (List.replicate (m + 2) (.pollStep id))).polled =
      s.polled ++ [⟨id, events ++ (s.bus.sender.sent.drop sub.receiver).filter (wanted sub.filter),
        s.bus.sender.sent.length⟩] := by
  induction m generalizing s sub events with
  | zero =>
    have hnone : s.bus.sender.sent[sub.receiver]? = none := getElem?_eq_none_iff.mpr (Nat.le_of_eq hm)
    rw [drop_eq_nil_of_le (i := sub.receiver) hm.le]
    simp [run, step, pollStep, hsub, hpolling, receive, tryRecv_of_le hup, hnone, setPolling, setSubscription, finish]
  | succ m ih =>
    have hlt : sub.receiver < s.bus.sender.sent.length := by omega
    have hstep : s.step (.pollStep id) = (s.setSubscription id { sub with receiver := sub.receiver + 1 }).setPolling id
        (.receiving (if wanted sub.filter s.bus.sender.sent[sub.receiver]
          then events ++ [s.bus.sender.sent[sub.receiver]] else events)) := by
      simp [step, pollStep, hsub, hpolling, receive, tryRecv_of_le hup, hlt]
    rw [replicate_succ, run, foldl_cons, hstep]
    refine (ih (lookup_insert _) (lookup_insert _) ?_ ?_).trans ?_
    · exact hup.trans (by simp only [setPolling, setSubscription]; omega)
    · simp only [setPolling, setSubscription]
      omega
    · rw [drop_eq_getElem_cons hlt, filter_cons]
      simp only [setPolling, setSubscription]
      split <;> simp

/-- What the log has after the position at which the subscription was made: all events but the first. -/
theorem recovered_of_emitted (h : Emitted capacity logCapacity ev n s) :
    s.recovered ⟨0, none, 1⟩ = ((List.range n).map ev).drop 1 := by
  unfold recovered RingEventLog.eventsSince
  rw [h.log]
  cases n with
  | zero => rfl
  | succ n => simp [range_succ_eq_map, filter_map, wanted]

/-- An undisturbed poll whose receiver has fallen behind returns what the log has, and leaves the receiver at the oldest
message that the channel keeps. -/
theorem run_lagged {missed : Nat} (hsub : s.bus.subscriptions.lookup id = some sub)
    (hfree : s.polling.lookup id = none) (hlag : s.bus.sender.tryRecv sub.receiver = (.lagged missed, receiver)) :
    let s' := s.run (.poll id :: List.replicate 3 (.pollStep id))
    s'.polled = s.polled ++ [⟨id, s.recovered sub, s.bus.sender.sent.length⟩] ∧ s'.bus.sender = s.bus.sender ∧
      (∃ seq, s'.bus.subscriptions.lookup id = some ⟨receiver, sub.filter, seq⟩) ∧ s'.polling.lookup id = none := by
  have hrun : s.run (.poll id :: List.replicate 3 (.pollStep id)) =
      ((((s.setPolling id (.receiving [])).setSubscription id { sub with receiver }).setPolling id
        (.recovering [])).setPolling id (.finishing (s.recovered sub) s.bus.sender.sent.length)).finish id
          { sub with receiver } (s.recovered sub) s.bus.sender.sent.length := by
    simp [run, step, poll, pollStep, hsub, hfree, receive, hlag, setSubscription, setPolling, recovered]
  rw [hrun]
  refine ⟨rfl, rfl, ?_, lookup_erase _ _⟩
  by_cases hnone : s.recovered sub = []
  · exact ⟨sub.lastSeenSeq, (lookup_insert _).trans (by rw [if_pos hnone])⟩
  · exact ⟨s.bus.nextSeq, (lookup_insert _).trans (by rw [if_neg hnone]; rfl)⟩

/-- A subscription is made, one event more is emitted than the channel keeps, and the subscription is polled twice. -/
def overflowRun (capacity : Nat) (ev : Nat → KernelEvent) : List BusAction :=
  subscribeCall (subscriptionId 1) ++ emitCalls ev (capacity + 1) ++
    (.poll (subscriptionId 1) :: List.replicate 3 (.pollStep (subscriptionId 1))) ++
    .poll (subscriptionId 1) :: List.replicate (capacity + 2) (.pollStep (subscriptionId 1))

section

variable (hlog : capacity + 1 ≤ logCapacity)
include hlog

theorem overflow_polled :
    (run (.new capacity logCapacity) (overflowRun capacity ev)).polled =
      [⟨subscriptionId 1, ((List.range (capacity + 1)).map ev).drop 1, capacity + 1⟩,
        ⟨subscriptionId 1, ((List.range (capacity + 1)).map ev).drop 1, capacity + 1⟩] := by
  have h : Emitted capacity logCapacity ev (capacity + 1) _ := emitted_run hlog
  have hlag : (run (.new capacity logCapacity) (subscribeCall (subscriptionId 1) ++
      emitCalls ev (capacity + 1))).bus.sender.tryRecv 0 = (.lagged 1, 1) := by
    rw [h.sender, tryRecv]
    simp
  obtain ⟨hpolled, hsender, ⟨seq, hsub⟩, hfree⟩ := run_lagged h.subscription h.polling hlag
  rw [h.polled, recovered_of_emitted h, h.sender] at hpolled
  rw [h.sender] at hsender
  unfold overflowRun
  rw [run, foldl_append, foldl_append]
  unfold run at hpolled hsender hsub hfree
  generalize foldl step (foldl step _ _) _ = s at *
  have hpoll : s.step (.poll (subscriptionId 1)) = s.setPolling (subscriptionId 1) (.receiving []) := by
    simp [step, poll, hsub, hfree, setPolling]
  have hsub' : (s.setPolling (subscriptionId 1) (.receiving [])).bus.subscriptions.lookup (subscriptionId 1) =
      some ⟨1, none, seq⟩ := hsub
  have hbus : (s.setPolling (subscriptionId 1) (.receiving [])).bus.sender = _ := hsender
  rw [foldl_cons, hpoll]
  refine (run_receiving hsub' (lookup_insert _) ?_ ?_).trans ?_
  · simp [hbus, Nat.add_comm]
  · simp [hbus, Nat.add_comm]
  · rw [show (s.setPolling (subscriptionId 1) (.receiving [])).polled = s.polled from rfl, hpolled, hbus]
    simp [wanted]

theorem overflow_delivered :
    (run (.new capacity logCapacity) (overflowRun capacity ev)).delivered (subscriptionId 1) =
      ((List.range (capacity + 1)).map ev).drop 1 ++ ((List.range (capacity + 1)).map ev).drop 1 := by
  simp [delivered, pollsOf, overflow_polled hlog]

/-- An event that differs from all later ones is lost. -/
theorem overflow_lost (hev : ∀ i, ev (i + 1) ≠ ev 0) :
    ev 0 ∉ (run (.new capacity logCapacity) (overflowRun capacity ev)).delivered (subscriptionId 1) := by
  rw [overflow_delivered hlog, mem_append, or_self, range_succ_eq_map, map_cons, map_map]
  intro hmem
  obtain ⟨i, -, hi⟩ := mem_map.mp hmem
  exact hev i hi

end

end Overflow

/-- With the capacities of the kernel: one event more than the channel keeps is emitted between the subscription and its
first poll. The first event is never returned, and the others are returned by both polls. -/
theorem overflow_loses_and_repeats : let ev : Nat → KernelEvent := fun i => .intentCompleted (toString i) true
    let s := run (.new defaultBroadcastCapacity defaultEventLogCapacity) (overflowRun defaultBroadcastCapacity ev)
    let emitted := (List.range (defaultBroadcastCapacity + 1)).map ev
    defaultBroadcastCapacity + 1 ≤ defaultEventLogCapacity ∧
      s.delivered (subscriptionId 1) = emitted.drop 1 ++ emitted.drop 1 ∧
      ev 0 ∈ emitted ∧ ev 0 ∉ s.delivered (subscriptionId 1) := by
  have hfits : defaultBroadcastCapacity + 1 ≤ defaultEventLogCapacity := by decide
  refine ⟨hfits, overflow_delivered hfits, ?_, overflow_lost hfits fun i hi => ?_⟩
  · exact mem_map_of_mem (mem_range.mpr (Nat.succ_pos _))
  · exact absurd (toString_inj (KernelEvent.intentCompleted.inj hi).1) (Nat.succ_ne_zero i)

end BusSystem

end Plico.Kernel
