import Plico.Proof.Fs.Context
import Plico.Proof.Kernel.ReadBack

/-!
# Private objects and the requests that read

A response holds data of the objects it was made from (`ApiResponse.disclosed`). Reading by CID checks the owner;
the listings, the graph and the context layers do not (`AIKernel.unchecked`). Every object a response discloses was
reached in one of these two ways (`disclosed_handle`), so a private object of another role is disclosed only by a
request that reaches it unchecked.
-/

namespace Plico.Kernel

open List PermissionContext AIKernel ApiResponse Plico.Cas Plico.Fs

variable {P : FsPlatform} {k : AIKernel} {inputs : RequestInputs} {cid : String} {response : ApiResponse}
  {req : ReadRequest} {obj : AIObject}

/-- A stored object that is private to another role. -/
def ForeignPrivate (k : AIKernel) (agentId cid : String) : Prop :=
  ∃ obj, k.fs.cas.lookup cid = some obj ∧ obj.meta_.scope = .private_ ∧ obj.meta_.createdBy ≠ agentId

/-! ## What a response holds -/

/-- The object whose text a request asks for by its CID. -/
def ReadRequest.target : ReadRequest → List String
  | .read cid _ _ => [cid]
  | .coreGet id _ _ => [id]
  | _ => []

/-- The objects whose bytes, snippet, summary or tags a response holds. A node of the graph holds the tags of the
document it stands for, whoever owns the node. -/
def ApiResponse.disclosed (req : ReadRequest) (response : ApiResponse) : List String :=
  (match response.data with
    | some (.text _) => req.target
    | _ => []) ++
  (response.results.getD []).map (·.cid) ++
  (response.deleted.getD []).map (·.cid) ++
  (response.nodes.getD []).filterMap (·.contentCid) ++
  response.contextData.toList.map (·.content.source) ++
  (response.contextAssembly.toList.flatMap (·.items)).map (·.content.source)

@[simp] theorem disclosed_accepted : accepted.disclosed req = [] := rfl

@[simp] theorem disclosed_failed {message : String} :
    (failed message).disclosed req = [] := rfl

/-! ## What a request reaches without a check -/

/-- The objects that a request reaches without a check of their owner. -/
def AIKernel.unchecked (k : AIKernel) (inputs : RequestInputs) : ReadRequest → List String
  | .read _ _ _ | .history _ _ | .restore _ _ => []
  | .coreGet id variant _ =>
    match variant.getD "object" with
    | "node" | "graph" => ((k.knowledgeGraph.bind (Graph.getNode id)).bind (·.contentCid)).toList
    | _ => []
  | .coreList variant limit offset agentId =>
    match variant.getD "object" with
    | "object" | "cas" => (listPage inputs.cids limit offset).getD []
    | "node" | "graph" => (k.knowledgeGraph.toList.flatMap (Graph.listNodes agentId)).filterMap (·.contentCid)
    | _ => []
  | .loadContext cid layer _ =>
    (ContextLayer.parseLayer inputs.toUppercase layer).toList.map (k.fs.ctxLoader.source cid)
  | .contextAssemble _ cids _ => cids.flatMap fun cid => [.l0, .l1, .l2].map (k.fs.ctxLoader.source cid)
  | .listDeleted _ => k.fs.listDeleted.map (·.cid)

/-- The role passes the check of the object's owner. -/
def PassesOwner (k : AIKernel) (agentId cid : String) (now : Nat) : Prop :=
  ∃ obj tenantId, k.fs.cas.lookup cid = some obj ∧
    k.permissions.checkOwnership (.new agentId tenantId) obj.meta_.createdBy now = .ok ()

variable {agentId : String} {now : Nat}

theorem passesOwner_of_getObject {tenantId : String}
    (h : k.getObject P cid agentId tenantId now = .ok obj) : PassesOwner k agentId cid now := by
  obtain ⟨⟨⟩, -, h⟩ := of_seq h
  obtain ⟨read, hread, h⟩ := of_seq h
  obtain ⟨⟨⟩, hcheck, -⟩ := of_seq h
  exact ⟨read, tenantId, lookup_of_getRaw (mapError_ok_iff.mp hread), (checkObject_eq_ok.mp hcheck).2⟩

/-! ## Each request -/

variable {req : ReadRequest} {variant : Option String} {target : String}

/-- Reading by CID, as `Read` and as `CoreGet`. -/
theorem disclosed_handleRead {tenantId : Option String} (htarget : req.target = [target])
    (hcid : cid ∈ (k.handleRead P target agentId tenantId now).disclosed req) : PassesOwner k agentId cid now := by
  unfold handleRead at hcid
  split at hcid
  · rename_i obj hget
    have hcid : cid ∈ req.target := by simpa [disclosed, accepted] using hcid
    obtain rfl : cid = target := by simpa [htarget] using hcid
    exact passesOwner_of_getObject hget
  · simp at hcid

theorem disclosed_handleGetNode {nodeId : String} (hcid : cid ∈ (k.handleGetNode nodeId agentId now).disclosed req) :
    cid ∈ ((k.knowledgeGraph.bind (Graph.getNode nodeId)).bind (·.contentCid)).toList := by
  unfold handleGetNode at hcid
  split at hcid
  · rename_i node hget
    obtain ⟨⟨⟩, -, hget⟩ := of_seq hget
    split at hget
    · cases pure_ok_inj.mp hget
    · rename_i found hfound
      obtain ⟨⟨⟩, -, hget⟩ := of_seq hget
      cases pure_ok_inj.mp hget
      rw [hfound]
      simpa [disclosed, accepted] using hcid
  · simp at hcid
  · simp at hcid

theorem disclosed_handleListNodes {limit offset : Option Nat}
    (hcid : cid ∈ (k.handleListNodes agentId limit offset now).disclosed req) :
    cid ∈ (k.knowledgeGraph.toList.flatMap (Graph.listNodes agentId)).filterMap (·.contentCid) := by
  unfold handleListNodes at hcid
  split at hcid
  · rename_i nodes hlist
    obtain ⟨node, hnode, hcontent⟩ : ∃ node ∈ (nodes.drop (offset.getD 0)).take (limit.getD nodes.length),
        node.contentCid = some cid := by
      simpa [disclosed, accepted] using hcid
    have hmem : node ∈ nodes := mem_of_mem_drop (mem_of_mem_take hnode)
    obtain ⟨⟨⟩, -, hlist⟩ := of_seq hlist
    split at hlist
    · cases hlist
      cases hmem
    · rename_i graph hgraph
      cases hlist
      rw [hgraph]
      refine mem_filterMap.mpr ⟨node, ?_, hcontent⟩
      simpa using mem_of_mem_filter hmem
  · simp at hcid

/-- An entry of the object listing names the CID it was made for. -/
theorem listEntry_cid {listed : String} {entry : SearchResultDto} (h : k.listEntry P listed = some entry) :
    entry.cid = listed := by
  obtain ⟨obj, -, rfl⟩ := Option.map_eq_some_iff.mp h
  rfl

theorem disclosed_coreGet {id : String}
    (hcid : cid ∈ (k.coreGet P id variant agentId now).disclosed (.coreGet id variant agentId)) :
    cid ∈ k.unchecked inputs (.coreGet id variant agentId) ∨ PassesOwner k agentId cid now := by
  unfold coreGet at hcid
  unfold unchecked
  dsimp only
  split at hcid
  · exact .inr (disclosed_handleRead rfl hcid)
  · exact .inr (disclosed_handleRead rfl hcid)
  · rename_i hvariant
    rw [hvariant]
    exact .inl (disclosed_handleGetNode hcid)
  · rename_i hvariant
    rw [hvariant]
    exact .inl (disclosed_handleGetNode hcid)
  · simp at hcid
  · simp at hcid
  · simp at hcid

/-- A page of the object listing discloses only CIDs of that page. -/
theorem mem_page_of_disclosed {page : Option (List String)}
    (h : page.map (fun page => { accepted with results := some (page.filterMap (k.listEntry P)) }) = some response)
    (hcid : cid ∈ response.disclosed req) : cid ∈ page.getD [] := by
  obtain ⟨page, rfl, rfl⟩ := Option.map_eq_some_iff.mp h
  obtain ⟨entry, ⟨listed, hlisted, hentry⟩, rfl⟩ : ∃ entry, (∃ listed ∈ page, k.listEntry P listed = some entry) ∧
      entry.cid = cid := by
    simpa [disclosed, accepted] using hcid
  rw [listEntry_cid hentry]
  exact hlisted

theorem disclosed_coreList {limit offset : Option Nat}
    (h : k.coreList P variant limit offset agentId inputs.cids inputs.now = some response)
    (hcid : cid ∈ response.disclosed (.coreList variant limit offset agentId)) :
    cid ∈ k.unchecked inputs (.coreList variant limit offset agentId) := by
  unfold coreList at h
  unfold unchecked
  dsimp only
  split at h
  · rename_i hvariant
    rw [hvariant]
    exact mem_page_of_disclosed h hcid
  · rename_i hvariant
    rw [hvariant]
    exact mem_page_of_disclosed h hcid
  · rename_i hvariant
    rw [hvariant]
    cases h
    exact disclosed_handleListNodes hcid
  · rename_i hvariant
    rw [hvariant]
    cases h
    exact disclosed_handleListNodes hcid
  all_goals
    cases h
    simp at hcid

theorem disclosed_handleLoadContext {layer : String}
    (h : (k.handleLoadContext P target layer agentId inputs).2 = some response)
    (hcid : cid ∈ response.disclosed (.loadContext target layer agentId)) :
    cid ∈ k.unchecked inputs (.loadContext target layer agentId) := by
  unfold handleLoadContext at h
  unfold unchecked
  dsimp only
  split at h
  · cases h
    simp at hcid
  rename_i parsed hparsed
  split at h
  · cases h
    simp at hcid
  · cases h
    simp at hcid
  · cases h
  · rename_i k' loaded hload
    cases h
    obtain ⟨⟨⟩, -, hload⟩ := of_seq hload
    obtain ⟨result, hresult, hload⟩ := map_eq_ok.mp (pure_ok_inj.mp hload)
    cases hload
    obtain rfl : cid = result.2.content.source := by
      simpa [disclosed, accepted] using hcid
    rw [(ContextLoader.load_source hresult).1.source, hparsed]
    simp

theorem disclosed_handleContextAssemble {cids : List String} {budgetTokens : Nat}
    (h : (k.handleContextAssemble P agentId cids budgetTokens inputs).2 = some response)
    (hcid : cid ∈ response.disclosed (.contextAssemble agentId cids budgetTokens)) :
    cid ∈ k.unchecked inputs (.contextAssemble agentId cids budgetTokens) := by
  unfold handleContextAssemble at h
  split at h
  · cases h
    simp at hcid
  · cases h
    simp at hcid
  · cases h
  · rename_i k' allocation hassemble
    cases h
    obtain ⟨⟨⟩, -, hassemble⟩ := of_seq hassemble
    obtain ⟨result, hresult, hassemble⟩ := map_eq_ok.mp (pure_ok_inj.mp hassemble)
    cases hassemble
    obtain ⟨⟨loader, items⟩, hloop, hresult⟩ := of_seq hresult
    cases hresult
    obtain ⟨item, hitem, rfl⟩ : ∃ item ∈ items, item.content.source = cid := by
      simpa [disclosed, accepted] using hcid
    rcases ContextLoader.assembleLoop_source hloop item hitem with hnil | ⟨target, htarget, layer, hsource⟩
    · cases hnil
    · rw [hsource]
      refine mem_flatMap.mpr ⟨target, htarget, mem_map.mpr ⟨layer, ?_, rfl⟩⟩
      cases layer <;> simp

/-- Every object that a response discloses was reached without a check, or the role passed the check. -/
theorem disclosed_handle (h : (k.handle P inputs req).2 = some response) (hcid : cid ∈ response.disclosed req) :
    cid ∈ k.unchecked inputs req ∨ PassesOwner k req.agentId cid inputs.now := by
  cases req with
  | read target agentId tenantId =>
    cases h
    exact .inr (disclosed_handleRead rfl hcid)
  | coreGet id variant agentId =>
    cases h
    exact disclosed_coreGet hcid
  | coreList variant limit offset agentId => exact .inl (disclosed_coreList h hcid)
  | loadContext target layer agentId => exact .inl (disclosed_handleLoadContext h hcid)
  | contextAssemble agentId cids budgetTokens => exact .inl (disclosed_handleContextAssemble h hcid)
  | listDeleted agentId =>
    cases h
    exact .inl (by simpa [disclosed, accepted, unchecked, handleListDeleted, listDeleted] using hcid)
  | history target agentId =>
    cases h
    simp [disclosed, accepted] at hcid
  | restore target agentId =>
    cases h
    split at hcid <;> simp at hcid

/-! ## Private objects -/

/-- Without a grant to read any object, only the owner passes. -/
theorem not_foreignPrivate_of_passesOwner (hagent : k.permissions.canReadAny agentId now = false)
    (h : PassesOwner k agentId cid now) : ¬ ForeignPrivate k agentId cid := by
  rintro ⟨stored, hstored, -, hforeign⟩
  obtain ⟨obj, tenantId, hl, howner⟩ := h
  obtain rfl : obj = stored := Option.some.inj (hl.symm.trans hstored)
  obtain ⟨htrusted, hgrants⟩ := Bool.or_eq_false_iff.mp hagent
  have hother : (new agentId tenantId).agentId ≠ obj.meta_.createdBy := fun heq =>
    hforeign heq.symm
  unfold PermissionGuard.checkOwnership at howner
  rw [if_neg hother] at howner
  simp [new, hasPermission, htrusted, hgrants] at howner

/-- After any history, a role that may not read any object is shown nothing of another role's private objects by a
request that reaches none of them unchecked. -/
theorem private_undisclosed (P : SearchPlatform) (k₀ : AIKernel) (history : List KernelOp) (inputs : RequestInputs)
    (req : ReadRequest) (hagent : (runKernel P k₀ history).permissions.canReadAny req.agentId inputs.now = false)
    (hunchecked : ∀ cid ∈ (runKernel P k₀ history).unchecked inputs req,
      ¬ ForeignPrivate (runKernel P k₀ history) req.agentId cid)
    {response : ApiResponse} (h : ((runKernel P k₀ history).handle P.toFsPlatform inputs req).2 = some response) :
    ∀ cid ∈ response.disclosed req, ¬ ForeignPrivate (runKernel P k₀ history) req.agentId cid := by
  intro cid hcid
  rcases disclosed_handle h hcid with hreached | hpasses
  · exact hunchecked cid hreached
  · exact not_foreignPrivate_of_passesOwner hagent hpasses

def bobCreates : KernelOp := .create [8] ["draft"] "bob" none .private_ sampleInputs

def sampleRequestInputs : RequestInputs := ⟨sampleInputs, [planCid, draftCid], none, id⟩

/-- Alice lists one object: the answer discloses her own one, and not the one that Bob keeps private. -/
theorem private_undisclosed_alice :
    let k := runKernel samplePlatform emptyKernel [aliceCreates, bobCreates]
    let req := .coreList none (some 1) none "alice"
    ForeignPrivate k "alice" draftCid ∧
      ∃ response, (k.handle samplePlatform.toFsPlatform sampleRequestInputs req).2 = some response ∧
        response.disclosed req = [planCid] ∧ ∀ cid ∈ response.disclosed req, ¬ ForeignPrivate k "alice" cid := by
  intro k req
  refine ⟨⟨_, rfl, rfl, by decide⟩, _, rfl, rfl,
    private_undisclosed samplePlatform emptyKernel [aliceCreates, bobCreates] sampleRequestInputs req rfl ?_ rfl⟩
  intro cid hcid
  obtain rfl : cid = planCid := mem_singleton.mp hcid
  rintro ⟨obj, hobj, -, hforeign⟩
  cases hobj
  exact hforeign rfl

/-- Bob lists the objects: the answer shows the tags and the text of what Alice keeps private. -/
theorem listing_discloses_private :
    let k := runKernel samplePlatform emptyKernel [aliceCreates, bobCreates]
    let req := .coreList none none none "bob"
    k.permissions.canReadAny "bob" 1 = false ∧ ForeignPrivate k "bob" planCid ∧
      ∃ response, (k.handle samplePlatform.toFsPlatform sampleRequestInputs req).2 = some response ∧
        planCid ∈ response.disclosed req ∧ response.results.map (·.map (·.tags)) = some [["plan"], ["draft"]] := by
  refine ⟨rfl, ⟨_, rfl, rfl, by decide⟩, _, rfl, ?_, rfl⟩
  exact mem_cons_self

end Plico.Kernel
