import Plico.Framework.Run
import Plico.Proof.Kernel.Managers
import Plico.Model.Kernel.Credentials

/-!
# Bearers across restarts

A bearer that was handed out is in the table in memory, and the table in the file is part of it. What the file is
missing was stored after the table in the file was written. So a bearer survives a crash when its token was stored
before that (`Covered`), as long as saves do not overlap (`Alone`): two saves share the temporary file, and one can
put in place what the other has just truncated. `Up` and `Down` are the invariant with and without a process.
-/

namespace Plico.Kernel.CredentialSystem

open JsonFile AList Disk CredentialCall CredentialSystem List

variable {β : Type} {codec : Codec TokenTable β SameTable} {s s' : CredentialSystem β} {i : Nat} {tokens : TokenTable}
  {owner : AgentToken}

/-! ## Conditions on a run -/

/-- Token strings are random and not empty, and so are the ids of new agents. -/
def Minted (s : CredentialSystem β) : CredentialStep → Prop
  | .registerAgent id token =>
    token ≠ "" ∧ (∀ t ∈ s.created, t.token ≠ token ∧ t.agentId ≠ id) ∧ id ≠ personalOwnerRoleId
  | .ensure token => token ≠ "" ∧ ∀ t ∈ s.created, t.token ≠ token
  | _ => True

/-- `persist` only begins when no other call has the table locked. -/
def Alone (s : CredentialSystem β) : CredentialStep → Prop
  | .call i => s.calls[i]?.any (fun call => call matches .waiting none) → s.calls.any holds = false
  | _ => True

/-- When the process crashes, every token that was handed out had been stored before the table in the file was
written. -/
def Covered (s : CredentialSystem β) : CredentialStep → Prop
  | .crash => ∀ t ∈ s.handedOut, t ∉ s.stored.drop s.inFile
  | _ => True

def Orderly (s : CredentialSystem β) (step : CredentialStep) : Prop := Minted s step ∧ Alone s step ∧ Covered s step

instance (s : CredentialSystem β) (step : CredentialStep) : Decidable (Minted s step) := by
  unfold Minted
  split <;> infer_instance

instance (s : CredentialSystem β) (step : CredentialStep) : Decidable (Alone s step) := by
  unfold Alone
  split <;> infer_instance

instance (s : CredentialSystem β) (step : CredentialStep) : Decidable (Covered s step) := by
  unfold Covered
  split <;> infer_instance

instance (s : CredentialSystem β) (step : CredentialStep) : Decidable (Orderly s step) :=
  inferInstanceAs (Decidable (_ ∧ _ ∧ _))

/-! ## Tables -/

/-- Every entry of `a` is in `b`. -/
def Within (a b : TokenTable) : Prop := ∀ role t, a.lookup role = some t → b.lookup role = some t

theorem within_withOwner : Within tokens (withOwner tokens owner) := by
  intro role t h
  unfold withOwner
  split
  · exact h
  · next hnone =>
    have hne : role ≠ personalOwnerRoleId := by
      rintro rfl
      cases hnone.symm.trans h
    rwa [lookup_insert_ne hne]

variable {t : AgentToken} {role : String}

theorem withOwner_entry (h : (withOwner tokens owner).lookup role = some t) :
    tokens.lookup role = some t ∨ personalOwnerRoleId ∉ tokens ∧ role = personalOwnerRoleId ∧ t = owner := by
  unfold withOwner at h
  split at h
  · exact .inl h
  · next hnone =>
    by_cases hrole : role = personalOwnerRoleId
    · subst hrole
      exact .inr ⟨lookup_eq_none.mp hnone, rfl, (Option.some.inj h).symm⟩
    · rw [lookup_insert_ne hrole] at h
      exact .inl h

/-- Entries are under the role of their token, and their tokens were created here. -/
def Genuine (s : CredentialSystem β) (table : TokenTable) : Prop :=
  ∀ role t, table.lookup role = some t → t ∈ s.created ∧ t.agentId = role

/-- What the random strings guarantee. -/
structure Known (s : CredentialSystem β) : Prop where
  strings : ∀ t ∈ s.created, ∀ u ∈ s.created, t.token = u.token → t = u
  roles : ∀ t ∈ s.created, ∀ u ∈ s.created, t.agentId = u.agentId → t.agentId ≠ personalOwnerRoleId → t = u
  plain : ∀ t ∈ s.created, t.token ≠ "" ∧ t.expiresAt = none

/-- The bearer of an entry is that of no other entry. -/
theorem authenticate_entry (hknown : Known s) (hgenuine : Genuine s tokens)
    (h : tokens.lookup role = some t) {now : Nat} : authenticateBearer tokens now t.token = .ok role := by
  obtain ⟨hcreated, hrole⟩ := hgenuine role t h
  obtain ⟨hne, hexpires⟩ := hknown.plain t hcreated
  have hentry := mem_lookup_iff.mp h
  unfold authenticateBearer
  rw [if_neg hne]
  cases hfind : tokens.entries.find? fun entry => !entry.2.expired now && utf8 entry.2.token == utf8 t.token with
  | none =>
    have hno := find?_eq_none.mp hfind ⟨role, t⟩ hentry
    simp [AgentToken.expired, hexpires] at hno
  | some entry =>
    have hmatch := find?_some hfind
    simp only [Bool.and_eq_true, beq_iff_eq] at hmatch
    have hlookup : tokens.lookup entry.1 = some entry.2 := mem_lookup_iff.mpr (mem_of_find?_eq_some hfind)
    obtain ⟨hcreated', -⟩ := hgenuine entry.1 entry.2 hlookup
    have hsame := hknown.strings entry.2 hcreated' t hcreated (utf8_injective hmatch.2)
    simp only [hsame, hrole]

variable {disk : Disk JsonFile β}

theorem lookup_loadTokens {table : TokenTable} (h : disk.read .index = some (codec.encode table)) (role : String) :
    (loadTokens codec disk).lookup role = table.lookup role := by
  obtain ⟨decoded, hdecode, hsame⟩ := codec.decode_encode table
  have hload : loadTokens codec disk = decoded := by simp [loadTokens, h, hdecode]
  rw [hload]
  exact hsame role

theorem loadTokens_congr {disk' : Disk JsonFile β} (h : disk'.read .index = disk.read .index) :
    loadTokens codec disk' = loadTokens codec disk := by
  unfold loadTokens
  rw [h]

/-! ## The invariant -/

/-- The table that a save writes. -/
def candidateOf (s : CredentialSystem β) : Option AgentToken → TokenTable
  | none => s.tokens
  | some token => withOwner s.tokens token

theorem within_candidateOf {owner : Option AgentToken} : Within s.tokens (s.candidateOf owner) :=
  match owner with
  | none => fun _ _ h => h
  | some _ => within_withOwner

def OwnerToken (s : CredentialSystem β) (owner : Option AgentToken) : Prop :=
  ∀ t ∈ owner, t ∈ s.created ∧ t.agentId = personalOwnerRoleId

/-- What a call carries. While it holds the lock, the table it writes is up to date and the temporary file is its own.
-/
def CallKept (codec : Codec TokenTable β SameTable) (s : CredentialSystem β) : CredentialCall → Prop
  | .registering t => t ∈ s.created ∧ t.agentId ≠ personalOwnerRoleId
  | .storing t => (t ∈ s.created ∧ t.agentId ≠ personalOwnerRoleId) ∧ s.tokens.lookup t.agentId = some t
  | .waiting owner => OwnerToken s owner
  | .locked owner candidate => OwnerToken s owner ∧ candidate = s.candidateOf owner
  | .opened owner candidate file => (OwnerToken s owner ∧ candidate = s.candidateOf owner) ∧
      s.disk.inode .temp = some file ∧ s.disk.bytes file = []
  | .written owner candidate => (OwnerToken s owner ∧ candidate = s.candidateOf owner) ∧
      s.disk.read .temp = some (codec.encode candidate)
  | .returned _ => True

structure Up (codec : Codec TokenTable β SameTable) (s : CredentialSystem β) : Prop where
  known : Known s
  genuine : Genuine s s.tokens
  handedOut : ∀ t ∈ s.handedOut, s.tokens.lookup t.agentId = some t
  file : Within (loadTokens codec s.disk) s.tokens
  unsaved : ∀ role t, s.tokens.lookup role = some t →
    (loadTokens codec s.disk).lookup role = some t ∨ t ∈ s.stored.drop s.inFile
  inFile_le : s.inFile ≤ s.stored.length
  sole : Sole holds s.calls
  calls : ∀ call ∈ s.calls, CallKept codec s call

structure Down (codec : Codec TokenTable β SameTable) (s : CredentialSystem β) : Prop where
  known : Known s
  genuine : Genuine s (loadTokens codec s.disk)
  handedOut : ∀ t ∈ s.handedOut, (loadTokens codec s.disk).lookup t.agentId = some t
  inFile_le : s.inFile ≤ s.stored.length
  calls : s.calls = []

/-- The invariant of every reachable state. -/
def Kept (codec : Codec TokenTable β SameTable) (s : CredentialSystem β) : Prop :=
  if s.up then Up codec s else Down codec s

variable {owner : Option AgentToken}

theorem OwnerToken.mono (h : OwnerToken s owner) (hcreated : ∀ t ∈ s.created, t ∈ s'.created) : OwnerToken s' owner :=
  fun t ht => ⟨hcreated t (h t ht).1, (h t ht).2⟩

variable {call : CredentialCall}

theorem CallKept.mono (h : CallKept codec s call) (hcreated : ∀ t ∈ s.created, t ∈ s'.created)
    (hwithin : Within s.tokens s'.tokens) (hholds : call.holds → s'.tokens = s.tokens ∧ s'.disk = s.disk) :
    CallKept codec s' call := by
  have hcandidate : ∀ owner, call.holds → s'.candidateOf owner = s.candidateOf owner := by
    intro owner hcall
    unfold candidateOf
    rw [(hholds hcall).1]
  cases call with
  | registering t => exact ⟨hcreated t h.1, h.2⟩
  | storing t => exact ⟨⟨hcreated t h.1.1, h.1.2⟩, hwithin _ _ h.2⟩
  | waiting owner => exact OwnerToken.mono h hcreated
  | locked owner candidate => exact ⟨h.1.mono hcreated, by rw [hcandidate owner rfl]; exact h.2⟩
  | opened owner | written owner =>
    refine ⟨⟨h.1.1.mono hcreated, by rw [hcandidate owner rfl]; exact h.1.2⟩, ?_⟩
    rw [(hholds rfl).2]
    exact h.2
  | returned => trivial

/-! ## Calls that begin -/

theorem Known.append (h : Known s) (hplain : t.token ≠ "" ∧ t.expiresAt = none)
    (hstring : ∀ u ∈ s.created, u.token ≠ t.token)
    (hrole : t.agentId ≠ personalOwnerRoleId → ∀ u ∈ s.created, u.agentId ≠ t.agentId)
    (hcreated : s'.created = s.created ++ [t]) : Known s' where
  strings u hu v hv huv := by
    rw [hcreated, mem_append, mem_singleton] at hu hv
    rcases hu with hu | rfl <;> rcases hv with hv | rfl
    · exact h.strings u hu v hv huv
    · exact absurd huv (hstring u hu)
    · exact absurd huv.symm (hstring v hv)
    · rfl
  roles u hu v hv huv hne := by
    rw [hcreated, mem_append, mem_singleton] at hu hv
    rcases hu with hu | rfl <;> rcases hv with hv | rfl
    · exact h.roles u hu v hv huv hne
    · exact absurd huv (hrole (huv ▸ hne) u hu)
    · exact absurd huv.symm (hrole hne v hv)
    · rfl
  plain u hu := by
    rw [hcreated, mem_append, mem_singleton] at hu
    rcases hu with hu | rfl
    · exact h.plain u hu
    · exact hplain

section

variable (h : Up codec s)
include h

theorem Up.begin {created : List AgentToken} (hcall : call.holds = false)
    (hcreated : ∀ t ∈ s.created, t ∈ created) (hknown : Known { s with created, calls := s.calls ++ [call] })
    (hkept : CallKept codec { s with created, calls := s.calls ++ [call] } call) :
    Up codec { s with created, calls := s.calls ++ [call] } :=
  { h with
    known := hknown
    genuine role t ht := ⟨hcreated t (h.genuine role t ht).1, (h.genuine role t ht).2⟩
    sole := h.sole.append hcall
    calls := forall_mem_append.mpr ⟨fun c hc => (h.calls c hc).mono hcreated (fun _ _ h => h) fun _ => ⟨rfl, rfl⟩,
      forall_mem_singleton.mpr hkept⟩ }

/-! ## Storing a token -/

theorem Up.store (added out : List AgentToken) (new : CredentialCall)
    (hi : s.calls[i]? = some call) (hfree : s.calls.any holds = false)
    (ht : t ∈ s.created ∧ t.agentId ≠ personalOwnerRoleId) (hnew : new.holds = false)
    (hadded : t ∈ added ∨ s.tokens.lookup t.agentId = some t) (hout : ∀ u ∈ out, u = t)
    (hkept : new = .storing t ∨ ∃ result, new = .returned result) :
    Up codec { s with
      tokens := s.tokens.insert t.agentId t
      stored := s.stored ++ added
      handedOut := s.handedOut ++ out
      calls := s.calls.set i new } := by
  -- an entry that is there already is the same token
  have hwithin : Within s.tokens (s.tokens.insert t.agentId t) := by
    intro role u hu
    by_cases hrole : role = t.agentId
    · subst hrole
      obtain ⟨hcreated, hid⟩ := h.genuine _ u hu
      obtain rfl := h.known.roles t ht.1 u hcreated hid.symm ht.2
      exact lookup_insert _
    · rwa [lookup_insert_ne hrole]
  have hentry : ∀ role u, (s.tokens.insert t.agentId t).lookup role = some u →
      role = t.agentId ∧ u = t ∨ s.tokens.lookup role = some u := by
    intro role u hu
    rcases lookup_insert_eq_some.mp hu with hu | ⟨-, hu⟩
    · exact .inl hu
    · exact .inr hu
  have hnot : ∀ c ∈ s.calls, c.holds = false := by simpa using hfree
  constructor
  case known => exact { h.known with }
  case genuine =>
    intro role u hu
    rcases hentry role u hu with ⟨rfl, rfl⟩ | hu
    · exact ⟨ht.1, rfl⟩
    · exact h.genuine role u hu
  case handedOut =>
    intro u hu
    rcases mem_append.mp hu with hu | hu
    · exact hwithin _ _ (h.handedOut u hu)
    · rw [hout u hu]
      exact lookup_insert _
  case file => exact fun role u hu => hwithin role u (h.file role u hu)
  case unsaved =>
    intro role u hu
    have hold : s.tokens.lookup role = some u →
        (loadTokens codec s.disk).lookup role = some u ∨ u ∈ (s.stored ++ added).drop s.inFile := by
      intro hu
      rw [drop_append_of_le_length h.inFile_le]
      exact (h.unsaved role u hu).imp_right fun hu => mem_append_left _ hu
    rcases hentry role u hu with ⟨rfl, rfl⟩ | hu
    · rcases hadded with hadded | hlookup
      · refine .inr ?_
        rw [drop_append_of_le_length h.inFile_le]
        exact mem_append_right _ hadded
      · exact hold hlookup
    · exact hold hu
  case inFile_le =>
    rw [length_append]
    exact Nat.le_add_right_of_le h.inFile_le
  case sole => exact h.sole.leave hi hnew
  case calls =>
    intro c hc
    rcases mem_or_eq_of_mem_set hc with hc | rfl
    · refine (h.calls c hc).mono (fun _ h => h) hwithin fun hholds => ?_
      rw [hnot c hc] at hholds
      cases hholds
    · rcases hkept with rfl | ⟨result, rfl⟩
      · exact ⟨ht, lookup_insert _⟩
      · trivial

/-! ## Saving the table -/

/-- The call that holds the lock moves on, and the file stays as it is. -/
theorem Up.save {new : CredentialCall} (hi : s.calls[i]? = some call) (hcall : call.holds)
    (hindex : disk.read .index = s.disk.read .index)
    (hkept : CallKept codec { s with disk, calls := s.calls.set i new } new) :
    Up codec { s with disk, calls := s.calls.set i new } where
  known := { h.known with }
  genuine := h.genuine
  handedOut := h.handedOut
  file := by
    rw [loadTokens_congr hindex]
    exact h.file
  unsaved := by
    rw [loadTokens_congr hindex]
    exact h.unsaved
  inFile_le := h.inFile_le
  sole := h.sole.move hi hcall
  calls c hc := by
    rcases h.sole.mem_set hi hcall hc with rfl | ⟨hc, hnot⟩
    · exact hkept
    · refine (h.calls c hc).mono (fun _ h => h) (fun _ _ h => h) fun hholds => ?_
      rw [hnot] at hholds
      cases hholds

theorem Up.take (hi : s.calls[i]? = some (.waiting owner)) (hfree : s.calls.any holds = false) :
    Up codec { s with calls := s.calls.set i (.locked owner (s.candidateOf owner)) } :=
  { h with
    known := { h.known with }
    sole := by
      have hnot : ∀ c ∈ s.calls, c.holds = false := by simpa using hfree
      exact .set hi fun j c _ hj => hnot c (mem_of_getElem? hj)
    calls := forall_mem_set (fun c hc => (h.calls c hc).mono (fun _ h => h) (fun _ _ h => h) fun _ => ⟨rfl, rfl⟩)
      ⟨h.calls _ (mem_of_getElem? hi), rfl⟩ }

/-- The table of the call that holds the lock is in place and published. -/
theorem Up.publish (stored out : List AgentToken) (hi : s.calls[i]? = some call)
    (hcall : call.holds) (howner : OwnerToken s owner)
    (hindex : disk.read .index = some (codec.encode (s.candidateOf owner)))
    (hout : ∀ t ∈ out, (s.candidateOf owner).lookup personalOwnerRoleId = some t) :
    Up codec { s with
      tokens := s.candidateOf owner
      disk
      calls := s.calls.set i (.returned (.ok ()))
      stored
      handedOut := s.handedOut ++ out
      inFile := stored.length } := by
  have hgenuine : Genuine s (s.candidateOf owner) := by
    intro role t ht
    cases owner with
    | none => exact h.genuine role t ht
    | some token =>
      rcases withOwner_entry ht with ht | ⟨-, rfl, rfl⟩
      · exact h.genuine role t ht
      · exact howner t rfl
  have hload := lookup_loadTokens hindex
  constructor
  case known => exact { h.known with }
  case genuine => exact hgenuine
  case handedOut =>
    intro t ht
    rcases mem_append.mp ht with ht | ht
    · exact within_candidateOf _ _ (h.handedOut t ht)
    · have hlookup := hout t ht
      rw [(hgenuine _ t hlookup).2]
      exact hlookup
  case file =>
    intro role t ht
    rwa [hload role] at ht
  case unsaved =>
    intro role t ht
    refine .inl ?_
    rw [hload role]
    exact ht
  case inFile_le => exact Nat.le_refl _
  case sole => exact h.sole.move hi hcall
  case calls =>
    intro c hc
    rcases h.sole.mem_set hi hcall hc with rfl | ⟨hc, hnot⟩
    · trivial
    · refine (h.calls c hc).mono (fun _ h => h) within_candidateOf fun hholds => ?_
      rw [hnot] at hholds
      cases hholds

theorem Up.finish {candidate : TokenTable} (hi : s.calls[i]? = some (.written owner candidate)) :
    Up codec (s.finish i owner candidate) ∧
      Within (loadTokens codec s.disk) (loadTokens codec (s.finish i owner candidate).disk) := by
  obtain ⟨⟨howner, rfl⟩, htemp⟩ := h.calls _ (mem_of_getElem? hi)
  obtain ⟨disk, hrename⟩ := exists_rename (exists_iff.mpr ⟨_, htemp⟩) JsonFile.index
  have hindex : disk.read .index = some (codec.encode (s.candidateOf owner)) := by
    rw [read_rename hrename, if_pos rfl, htemp]
  have hwithin : Within (loadTokens codec s.disk) (loadTokens codec disk) := by
    intro role t ht
    rw [lookup_loadTokens hindex]
    exact within_candidateOf role t (h.file role t ht)
  unfold CredentialSystem.finish
  rw [hrename]
  cases owner with
  | none =>
    have hup := h.publish s.stored [] hi rfl howner hindex (by simp)
    rw [append_nil] at hup
    exact ⟨hup, hwithin⟩
  | some token => exact ⟨h.publish _ _ hi rfl howner hindex (by simp), hwithin⟩

/-! ## Crashes and starts -/

theorem Up.crash (hcovered : Covered s .crash) : Down codec s.crash where
  known := { h.known with }
  genuine role t ht := h.genuine role t (h.file role t ht)
  handedOut t ht := by
    rcases h.unsaved _ t (h.handedOut t ht) with hfile | hunsaved
    · exact hfile
    · exact absurd hunsaved (hcovered t ht)
  inFile_le := h.inFile_le
  calls := rfl

end

theorem Down.start (h : Down codec s) : Up codec { s with up := true, tokens := loadTokens codec s.disk } where
  known := { h.known with }
  genuine := h.genuine
  handedOut := h.handedOut
  file _ _ ht := ht
  unsaved _ _ ht := .inl ht
  inFile_le := h.inFile_le
  sole := by
    rw [h.calls]
    exact .nil
  calls c hc := by
    have hmem : c ∈ s.calls := hc
    rw [h.calls] at hmem
    exact absurd hmem not_mem_nil

theorem Kept.fresh (codec : Codec TokenTable β SameTable) : Kept codec (fresh : CredentialSystem β) := by
  have hno {p : AgentToken → Prop} : ∀ t ∈ [], p t := forall_mem_nil p
  refine ⟨⟨hno, hno, hno⟩, fun role t ht => ?_, hno, Nat.le_refl _, rfl⟩
  simp [loadTokens, CredentialSystem.fresh] at ht

/-! ## Steps -/

section

variable [Inhabited β]

theorem Up.callStep (h : Up codec s) (hi : s.calls[i]? = some call) (halone : Alone s (.call i)) :
    Up codec (s.callStep codec i call) ∧
      Within (loadTokens codec s.disk) (loadTokens codec (s.callStep codec i call).disk) := by
  have hkept := h.calls call (mem_of_getElem? hi)
  unfold CredentialSystem.callStep
  cases call with
  | registering t =>
    dsimp only
    split
    · exact ⟨h, fun _ _ h => h⟩
    · next hfree =>
      have hup := h.store [t] [] (.storing t) hi (by simpa using hfree) hkept rfl
        (.inl (mem_singleton_self t)) (by simp) (.inl rfl)
      rw [append_nil] at hup
      exact ⟨hup, fun _ _ h => h⟩
  | storing t =>
    dsimp only
    split
    · exact ⟨h, fun _ _ h => h⟩
    · next hfree =>
      have hup := h.store [] [t] (.returned (.ok ())) hi (by simpa using hfree) hkept.1 rfl
        (.inr hkept.2) (by simp) (.inr ⟨_, rfl⟩)
      rw [append_nil] at hup
      exact ⟨hup, fun _ _ h => h⟩
  | waiting owner =>
    unfold lock
    cases owner with
    | some token =>
      dsimp only
      split
      · exact ⟨h, fun _ _ h => h⟩
      · next hfree => exact ⟨h.take hi (by simpa using hfree), fun _ _ h => h⟩
    | none =>
      have hfree := halone (by simp [hi])
      dsimp only
      split
      · exact ⟨h, fun _ _ h => h⟩
      · exact ⟨h.take hi hfree, fun _ _ h => h⟩
  | locked owner candidate =>
    have hindex : (s.disk.openTruncate .temp).1.read .index = s.disk.read .index := by
      simp [read_openTruncate]
    have htemp := inode_openTruncate (d := s.disk) temp
    have hbytes : (s.disk.openTruncate .temp).1.bytes (s.disk.openTruncate .temp).2 = [] := by
      have hread := read_openTruncate (d := s.disk) temp temp
      rw [read_of_inode htemp] at hread
      exact Option.some.inj hread
    refine ⟨h.save hi rfl hindex ⟨hkept, htemp, hbytes⟩, ?_⟩
    rw [loadTokens_congr hindex]
    exact fun _ _ h => h
  | opened owner candidate file =>
    obtain ⟨howner, htemp, hbytes⟩ := hkept
    have hindex : (s.disk.writeAt file 0 (codec.encode candidate)).read .index = s.disk.read .index := by
      simp [writeAt, read_setBytes htemp]
    have hwritten : (s.disk.writeAt file 0 (codec.encode candidate)).read .temp = some (codec.encode candidate) := by
      rw [writeAt, read_setBytes htemp, hbytes]
      exact congrArg some (overlay_length rfl)
    refine ⟨h.save hi rfl hindex ⟨howner, hwritten⟩, ?_⟩
    rw [loadTokens_congr hindex]
    exact fun _ _ h => h
  | written owner candidate => exact h.finish hi
  | returned => exact ⟨h, fun _ _ h => h⟩

theorem Up.upStep (h : Up codec s) (action : CredentialStep) (hminted : Minted s action) (halone : Alone s action) :
    Up codec (s.upStep codec action) ∧
      Within (loadTokens codec s.disk) (loadTokens codec (s.upStep codec action).disk) := by
  cases action with
  | registerAgent id token =>
    obtain ⟨hne, hnew, howner⟩ := hminted
    have hmem : AgentToken.create id token ∈ s.created ++ [.create id token] :=
      mem_append_right _ (mem_singleton_self _)
    have hknown : Known { s with
        created := s.created ++ [.create id token]
        calls := s.calls ++ [.registering (.create id token)] } :=
      h.known.append ⟨hne, rfl⟩ (fun u hu => (hnew u hu).1) (fun _ u hu => (hnew u hu).2) rfl
    exact ⟨h.begin rfl (fun _ ht => mem_append_left _ ht) hknown ⟨hmem, howner⟩, fun _ _ h => h⟩
  | ensure token =>
    obtain ⟨hne, hnew⟩ := hminted
    have hknown : Known { s with
        created := s.created ++ [.create personalOwnerRoleId token]
        calls := s.calls ++ [.waiting (some (.create personalOwnerRoleId token))] } :=
      h.known.append ⟨hne, rfl⟩ hnew (fun hrole => absurd rfl hrole) rfl
    refine ⟨h.begin rfl (fun _ ht => mem_append_left _ ht) hknown ?_, fun _ _ h => h⟩
    intro t ht
    cases ht
    exact ⟨mem_append_right _ (mem_singleton_self _), rfl⟩
  | persist =>
    refine ⟨h.begin rfl (fun _ ht => ht) { h.known with } ?_, fun _ _ h => h⟩
    intro t ht
    cases ht
  | call i =>
    simp only [CredentialSystem.upStep]
    cases hi : s.calls[i]? with
    | none => exact ⟨h, fun _ _ h => h⟩
    | some call => exact h.callStep hi halone
  | start | crash => exact ⟨h, fun _ _ h => h⟩

theorem up_upStep {action : CredentialStep} : (s.upStep codec action).up = s.up := by
  cases action with
  | call i =>
    simp only [upStep]
    split
    · next call _ =>
      cases call with
      | registering | storing =>
        simp only [callStep]
        split <;> rfl
      | waiting owner =>
        simp only [callStep, lock]
        split <;> split <;> rfl
      | written owner candidate =>
        simp only [callStep, finish]
        split
        · rfl
        · split <;> rfl
      | locked | opened | returned => rfl
    · rfl
  | start | registerAgent | persist | ensure | crash => rfl

/-- One step keeps the invariant, and every entry of the file. -/
theorem Kept.step (h : Kept codec s) (action : CredentialStep) (horderly : Orderly s action) :
    Kept codec (s.step codec action) ∧
      Within (loadTokens codec s.disk) (loadTokens codec (s.step codec action).disk) := by
  obtain ⟨hminted, halone, hcovered⟩ := horderly
  have hprocess : Kept codec (if s.up then s.upStep codec action else s) ∧
      Within (loadTokens codec s.disk) (loadTokens codec (if s.up then s.upStep codec action else s).disk) := by
    split
    · next hup =>
      simp only [Kept, hup] at h ⊢
      rw [up_upStep, hup]
      exact h.upStep action hminted halone
    · exact ⟨h, fun _ _ h => h⟩
  cases action with
  | crash =>
    refine ⟨?_, fun _ _ h => h⟩
    unfold Kept at h
    split at h
    · exact h.crash hcovered
    · exact ⟨{ h.known with }, h.genuine, h.handedOut, h.inFile_le, rfl⟩
  | start =>
    simp only [CredentialSystem.step, CredentialSystem.start]
    split
    · exact ⟨h, fun _ _ h => h⟩
    · next hdown =>
      simp only [Kept, hdown] at h
      exact ⟨h.start, fun _ _ h => h⟩
  | registerAgent | persist | ensure | call => exact hprocess

/-! ## Runs -/

theorem Kept.run {steps : List CredentialStep} (h : Kept codec s)
    (horderly : Throughout (CredentialSystem.step codec) Orderly s steps) :
    Kept codec (run codec s steps) ∧
      Within (loadTokens codec s.disk) (loadTokens codec (run codec s steps).disk) := by
  induction steps generalizing s with
  | nil => exact ⟨h, fun _ _ h => h⟩
  | cons action steps ih =>
    obtain ⟨hstep, hwithin⟩ := h.step action horderly.1
    obtain ⟨hrun, hwithin'⟩ := ih hstep horderly.2
    exact ⟨hrun, fun role t ht => hwithin' role t (hwithin role t ht)⟩

/-- Every bearer that was handed out authenticates its role after the next start, at any time, and nothing that happens
after some point of the run changes or drops an entry that was in the file at that point. -/
theorem credentials_survive (codec : Codec TokenTable β SameTable) (steps more : List CredentialStep)
    (horderly : Throughout (step codec) Orderly fresh (steps ++ more)) : let s := run codec fresh steps
    let later := run codec s more
    (∀ t ∈ later.handedOut, ∀ now, authenticateBearer (later.start codec).tokens now t.token = .ok t.agentId) ∧
      ∀ role t, (loadTokens codec s.disk).lookup role = some t →
      (loadTokens codec later.disk).lookup role = some t := by
  intro s later
  obtain ⟨hbefore, hafter⟩ := horderly.of_append
  have hfresh := Kept.fresh codec
  obtain ⟨hkept, -⟩ := Kept.run hfresh hbefore
  obtain ⟨hlater, hwithin⟩ := Kept.run hkept hafter
  refine ⟨fun t ht now => ?_, hwithin⟩
  -- after the start there is a process, whose table has every token that was handed out
  have hup : Up codec (later.start codec) := by
    unfold CredentialSystem.start
    unfold Kept at hlater
    split at hlater
    · next hup => rwa [if_pos hup]
    · next hdown =>
      rw [if_neg hdown]
      exact hlater.start
  have hhanded : t ∈ (later.start codec).handedOut := by
    unfold CredentialSystem.start
    split <;> exact ht
  exact authenticate_entry hup.known hup.genuine (hup.handedOut t hhanded)

end

/-! ### Three runs -/

def sampleCodec : Codec TokenTable TokenTable SameTable := .plain fun _ _ => rfl

/-- A save of call `i`, from taking the lock to its return. -/
def saved (i : Nat) : List CredentialStep := List.replicate 4 (.call i)

def registered (i : Nat) : List CredentialStep := List.replicate 2 (.call i)

/-- The owner's bearer, that of an agent, and a periodic save. -/
def savedBearers : List CredentialStep :=
  [.start, .ensure "owner-bearer"] ++ saved 0 ++ [.registerAgent "agent-1" "agent-bearer"] ++ registered 1 ++
    [.persist] ++ saved 2

def secondProcess : List CredentialStep := [.crash, .start, .ensure "other-bearer"] ++ saved 0 ++ [.crash]

theorem savedBearers_survive :
    let s := run sampleCodec fresh savedBearers
    let later := run sampleCodec s secondProcess
    (∀ t ∈ later.handedOut, ∀ now, authenticateBearer (later.start sampleCodec).tokens now t.token = .ok t.agentId) ∧
      ∀ role t, (loadTokens sampleCodec s.disk).lookup role = some t →
        (loadTokens sampleCodec later.disk).lookup role = some t :=
  credentials_survive sampleCodec savedBearers secondProcess (by decide +kernel)

/-- A registration whose bearer was not saved before the crash. -/
def unsavedRun : List CredentialStep := [.start, .registerAgent "agent-1" "agent-bearer"] ++ registered 0 ++ [.crash]

/-- Two saves: the second one truncates the temporary file between the first one's write and its rename. -/
def overlappingRun : List CredentialStep :=
  [.start, .ensure "owner-bearer"] ++ saved 0 ++
    [.persist, .persist, .call 1, .call 1, .call 1, .call 2, .call 2, .call 1, .crash, .start,
      .ensure "other-bearer"] ++ saved 0

theorem bearers_lost_and_replaced :
    let unsaved := run sampleCodec fresh unsavedRun
    let replaced := run sampleCodec fresh overlappingRun
    (unsaved.handedOut = [.create "agent-1" "agent-bearer"] ∧
        authenticateBearer (unsaved.start sampleCodec).tokens 0 "agent-bearer" = .error "invalid bearer credential") ∧
      .create personalOwnerRoleId "owner-bearer" ∈ replaced.handedOut ∧
        authenticateBearer replaced.tokens 0 "owner-bearer" = .error "invalid bearer credential" ∧
        (loadTokens sampleCodec replaced.disk).lookup personalOwnerRoleId =
          some (.create personalOwnerRoleId "other-bearer") := by
  decide +kernel

end Plico.Kernel.CredentialSystem
