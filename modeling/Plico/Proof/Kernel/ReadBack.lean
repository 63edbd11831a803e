import Plico.Model.Kernel.Requests
import Plico.Proof.Fs.Operations

/-!
# Reading back what was created

The storage only grows, whatever the kernel does (`stores_of_op`, `stores_of_run`), so a CID keeps the object it
had first. A created object is therefore read back as created exactly when its bytes were new, or were stored with
the same owner, tags and scope before.
-/

namespace Plico.Kernel

open KernelOp AIKernel Plico.Cas Plico.Fs SemanticFS

variable {k k' : AIKernel} {agentId cid newCid tenantId : String} {inputs : OpInputs} {intent : Option String}
  {scope : ObjectScope} {content : Bytes} {tags : List String} {now : Nat} {summarizer : Option Summarizer}
  {ctx : PermissionContext} {obj : AIObject}

/-! ## The storage grows -/

section

variable {P : FsPlatform}

theorem stores_of_semanticCreate (h : k.semanticCreate P content tags agentId intent scope inputs = .ok (k', cid)) :
    Stores P.sha256 k.fs.cas k'.fs.cas := by
  obtain ⟨⟨⟩, -, ⟨⟩, -, ⟨fs, cid⟩, hcreate, h⟩ := of_seq₃ h
  cases h
  exact stores_of_create hcreate

theorem stores_of_storeObject {data : Bytes} {meta_ : AIObjectMeta}
    (h : k.storeObject P data meta_ agentId now = .ok (k', cid)) : Stores P.sha256 k.fs.cas k'.fs.cas := by
  obtain ⟨⟨⟩, -, h⟩ := of_seq h
  obtain ⟨⟨cas, cid⟩, hput, h⟩ := of_seq h
  cases h
  exact stores_of_put (mapError_ok_iff.mp hput)

theorem stores_of_semanticUpdate {newContent : Bytes} {newTags : Option (List String)}
    (h : k.semanticUpdate P cid newContent newTags agentId tenantId inputs = .ok (k', newCid)) :
    Stores P.sha256 k.fs.cas k'.fs.cas := by
  obtain ⟨⟨⟩, -, h⟩ := of_seq h
  split at h
  · obtain ⟨_, -, h⟩ := of_seq h
    obtain ⟨⟨fs, cid⟩, hupdate, h⟩ := of_seq h
    cases h
    exact stores_of_update hupdate
  · obtain ⟨⟨fs, cid⟩, hupdate, h⟩ := of_seq h
    cases h
    exact stores_of_update hupdate

theorem semanticDelete_cas (h : k.semanticDelete P cid agentId tenantId now = .ok k') :
    k'.fs.cas = k.fs.cas := by
  obtain ⟨_, -, ⟨⟩, -, ⟨⟩, -, h⟩ := of_seq₃ h
  obtain ⟨fs, hdelete, h⟩ := of_seq h
  obtain ⟨⟨⟩, -, h⟩ := of_seq h
  cases h
  exact delete_cas hdelete

theorem stores_of_rollback (h : k.rollback P cid agentId inputs = .ok (k', newCid)) :
    Stores P.sha256 k.fs.cas k'.fs.cas := by
  obtain ⟨⟨⟩, -, _, -, _, -, h⟩ := of_seq₃ h
  exact stores_of_semanticUpdate (mapError_ok_iff.mp h)

theorem restoreDeleted_cas (h : k.restoreDeleted P cid agentId inputs = .ok k') :
    k'.fs.cas = k.fs.cas := by
  obtain ⟨⟨⟩, -, h⟩ := of_seq h
  obtain ⟨fs, hrestore, h⟩ := of_seq h
  cases h
  exact restore_cas hrestore

theorem contextLoad_cas {layer : ContextLayer} {loaded : LoadedContext}
    (h : k.contextLoad P summarizer cid layer agentId now = .ok (.ok (k', loaded))) :
    k'.fs.cas = k.fs.cas := by
  obtain ⟨⟨⟩, -, h⟩ := of_seq h
  obtain ⟨_, -, h⟩ := map_eq_ok.mp (pure_ok_inj.mp h)
  cases h
  rfl

theorem contextAssemble_cas {candidates : List String} {budgetTokens : Nat} {allocation : BudgetAllocation}
    (h : k.contextAssemble P summarizer candidates budgetTokens agentId now = .ok (.ok (k', allocation))) :
    k'.fs.cas = k.fs.cas := by
  obtain ⟨⟨⟩, -, h⟩ := of_seq h
  obtain ⟨_, -, h⟩ := map_eq_ok.mp (pure_ok_inj.mp h)
  cases h
  rfl

theorem handle_cas {inputs : RequestInputs} {req : ReadRequest} :
    (k.handle P inputs req).1.fs.cas = k.fs.cas := by
  cases req with
  | read | coreGet | coreList | listDeleted | history => rfl
  | loadContext cid layer agentId =>
    unfold handle handleLoadContext
    dsimp only
    split
    · rfl
    · split <;> first | rfl | skip
      rename_i hload
      exact contextLoad_cas hload
  | contextAssemble agentId cids budgetTokens =>
    unfold handle handleContextAssemble
    dsimp only
    split <;> first | rfl | skip
    rename_i hload
    exact contextAssemble_cas hload
  | restore cid agentId =>
    unfold handle handleRestore
    dsimp only
    split
    · next hrestore => exact restoreDeleted_cas hrestore
    · rfl

end

variable {P : SearchPlatform}

theorem stores_of_kernelOr {ε α : Type} {sha256 : Bytes → String} {r : Except ε (AIKernel × α)}
    (h : ∀ k' a, r = .ok (k', a) → Stores sha256 k.fs.cas k'.fs.cas) :
    Stores sha256 k.fs.cas (kernelOr k r).fs.cas := by
  cases r with
  | error e => exact .refl _
  | ok r => exact h r.1 r.2 rfl

theorem stores_of_op (op : KernelOp) : Stores P.sha256 k.fs.cas (op.apply P k).fs.cas := by
  cases op with
  | create content tags agentId intent scope inputs =>
    exact stores_of_kernelOr fun _ _ h => stores_of_semanticCreate h
  | createWithEmbedding content tags agentId intent scope now embedding =>
    unfold apply
    dsimp only
    split
    · next h => exact stores_of_createWithEmbedding h
    · exact .refl _
  | storeObject data meta_ agentId now => exact stores_of_kernelOr fun _ _ h => stores_of_storeObject h
  | put obj =>
    unfold apply
    dsimp only
    split
    · next h => exact stores_of_put h
    · exact .refl _
  | update cid newContent newTags agentId tenantId inputs =>
    exact stores_of_kernelOr fun _ _ h => stores_of_semanticUpdate h
  | delete cid agentId tenantId now =>
    unfold apply
    dsimp only
    split
    · rename_i h
      rw [semanticDelete_cas h]
      exact .refl _
    · exact .refl _
  | rollback cid agentId inputs => exact stores_of_kernelOr fun _ _ h => stores_of_rollback h
  | processDocument cid agentId answer chunks => exact stores_of_processDocument ..
  | search env query limit filter allowCache mono =>
    obtain ⟨cache, h⟩ := k.fs.searchWithFilterInternal_fst P env query limit filter allowCache mono
    unfold apply
    dsimp only
    rw [h]
    exact .refl _
  | request req inputs =>
    unfold apply
    rw [handle_cas]
    exact .refl _
  | flush =>
    unfold apply
    rw [persistSearchIndex_cas]
    exact .refl _
  | restart | permissions | graph => exact .refl _

theorem stores_of_run (ops : List KernelOp) (k : AIKernel) : Stores P.sha256 k.fs.cas (runKernel P k ops).fs.cas := by
  induction ops generalizing k with
  | nil => exact .refl _
  | cons op ops ih => exact (stores_of_op op).trans (ih (op.apply P k))

/-! ## Reading -/

@[simp] theorem check_read (ctx : PermissionContext) (now : Nat) : k.check ctx .read now = .ok () := by
  unfold check PermissionGuard.check
  split
  · rfl
  · split
    · rfl
    · split <;> rfl

theorem checkNamespaceAccess_eq_ok {resource : String} :
    PermissionGuard.checkNamespaceAccess ctx resource = .ok () ↔ ctx.tenantId = resource := by
  unfold PermissionGuard.checkNamespaceAccess
  split <;> simp [*]

theorem checkObject_eq_ok :
    k.checkObject ctx obj now = .ok () ↔
      ctx.tenantId = obj.meta_.tenantId ∧ k.permissions.checkOwnership ctx obj.meta_.createdBy now = .ok () := by
  constructor
  · intro h
    obtain ⟨⟨⟩, hnamespace, howner⟩ := of_seq h
    exact ⟨checkNamespaceAccess_eq_ok.mp (mapError_ok_iff.mp hnamespace), mapError_ok_iff.mp howner⟩
  · rintro ⟨hnamespace, howner⟩
    exact seq_eq_ok.mpr ⟨(), mapError_ok_iff.mpr (checkNamespaceAccess_eq_ok.mpr hnamespace),
      mapError_ok_iff.mpr howner⟩

theorem checkOwnership_self (guard : PermissionGuard) (ctx : PermissionContext) (now : Nat) :
    guard.checkOwnership ctx ctx.agentId now = .ok () := by
  unfold PermissionGuard.checkOwnership
  rw [if_pos rfl]

/-- An object is read when it is stored, in the reader's namespace and the reader passes the ownership check. -/
theorem getObject_eq_ok {P : FsPlatform} (hi : Intact P.sha256 k.fs.cas) :
    k.getObject P cid agentId tenantId now = .ok obj ↔
      validateCid cid = .ok () ∧ k.fs.cas.lookup cid = some obj ∧ tenantId = obj.meta_.tenantId ∧
        k.permissions.checkOwnership (.new agentId tenantId) obj.meta_.createdBy now = .ok () := by
  unfold getObject
  dsimp only
  rw [check_read, seq_ok]
  constructor
  · intro h
    obtain ⟨read, hread, h⟩ := of_seq h
    obtain ⟨⟨⟩, hcheck, h⟩ := of_seq h
    cases h
    obtain ⟨hvalid, hl⟩ := (get_eq_ok hi).mp (mapError_ok_iff.mp hread)
    exact ⟨hvalid, hl, checkObject_eq_ok.mp hcheck⟩
  · rintro ⟨hvalid, hl, hcheck⟩
    have hread : k.readByCid P cid = .ok obj := mapError_ok_iff.mpr ((get_eq_ok hi).mpr ⟨hvalid, hl⟩)
    rw [hread, seq_ok, checkObject_eq_ok.mpr hcheck]
    rfl

/-! ## What was created -/

/-- The role reads the object back with the bytes, owner, tags and scope it was created with. -/
def ReadsBack (P : FsPlatform) (k : AIKernel) (cid : String) (content : Bytes) (tags : List String) (agentId : String)
    (scope : ObjectScope) (now : Nat) : Prop :=
  ∃ obj, k.getObject P cid agentId Cas.defaultTenant now = .ok obj ∧ obj.data = content ∧
    obj.meta_.createdBy = agentId ∧ obj.meta_.tags = tags ∧ obj.meta_.scope = scope

/-- A successful create leaves the bytes under their hash: the object that was there, else the new one. -/
theorem semanticCreate_lookup
    {P : FsPlatform} (h : k.semanticCreate P content tags agentId intent scope inputs = .ok (k', cid)) :
    cid = P.sha256 content ∧ validateCid cid = .ok () ∧
      k'.fs.cas.lookup cid = some ((k.fs.cas.lookup cid).getD (.new P.sha256 content
        (createdMeta P content tags agentId intent scope inputs.now))) := by
  obtain ⟨⟨⟩, -, ⟨⟩, -, ⟨fs, cid⟩, hcreate, h⟩ := of_seq₃ h
  cases h
  obtain ⟨cas, hput, rfl⟩ := create_eq_ok hcreate
  obtain ⟨-, hvalid, hcid, -⟩ := put_eq_ok.mp hput
  have hcas : (if inputs.queued then
      ({ k.fs with cas, tagIndex := updateTagIndex k.fs.tagIndex tags cid })
      else (({ k.fs with cas, tagIndex := updateTagIndex k.fs.tagIndex tags cid }).upsertSemanticIndex P
        cid content (createdMeta P content tags agentId intent scope inputs.now) inputs.answer).1).cas =
      cas := by
    split <;> simp
  refine ⟨hcid, hcid ▸ hvalid, ?_⟩
  rw [hcas]
  exact put_lookup hput

/-- Whatever happens after a create, its author reads it back as created exactly when the bytes were new or had been
stored with the same owner, tags and scope. `hhash` says that no other bytes have the hash of these. -/
theorem create_readsBack_iff (P : SearchPlatform) {k₀ k : AIKernel} (hi : Intact P.sha256 k₀.fs.cas)
    (before after : List KernelOp) {content : Bytes} {tags : List String} {agentId : String} {intent : Option String}
    {scope : ObjectScope} {inputs : OpInputs} {cid : String}
    (hcreate : (runKernel P k₀ before).semanticCreate P.toFsPlatform content tags agentId intent scope inputs =
      .ok (k, cid)) (hhash : ∀ data, P.sha256 data = P.sha256 content → data = content) (now : Nat) :
    ReadsBack P.toFsPlatform (runKernel P k after) cid content tags agentId scope now ↔
      ∀ obj, (runKernel P k₀ before).fs.cas.lookup (P.sha256 content) = some obj →
        obj.meta_.createdBy = agentId ∧ obj.meta_.tags = tags ∧ obj.meta_.scope = scope ∧
          obj.meta_.tenantId = Cas.defaultTenant := by
  obtain ⟨rfl, hvalid, hl⟩ := semanticCreate_lookup hcreate
  have hbefore : Intact P.sha256 k.fs.cas :=
    (stores_of_semanticCreate hcreate).intact ((stores_of_run before k₀).intact hi)
  have hlater := (stores_of_run (P := P) after k).lookup hl
  have hintact := (stores_of_run after k).intact hbefore
  unfold ReadsBack
  simp only [getObject_eq_ok hintact]
  constructor
  · rintro ⟨read, ⟨-, hread, htenant, -⟩, -, howner, htags, hscope⟩ obj hobj
    -- what is read now is what was stored before the create
    obtain rfl : obj = read := by
      rw [hobj, hread] at hlater
      exact (Option.some.inj hlater).symm
    exact ⟨howner, htags, hscope, htenant.symm⟩
  · intro hsame
    cases hold : (runKernel P k₀ before).fs.cas.lookup (P.sha256 content) with
    | none =>
      rw [hold] at hlater
      exact ⟨_, ⟨hvalid, hlater, rfl, checkOwnership_self _ (.new agentId Cas.defaultTenant) now⟩, rfl, rfl, rfl, rfl⟩
    | some obj =>
      rw [hold] at hlater
      obtain ⟨rfl, htags, hscope, htenant⟩ := hsame obj hold
      obtain ⟨hcid, hint⟩ := hintact _ _ hlater
      have hdata : obj.data = content := hhash _ (hint.symm.trans hcid)
      exact ⟨obj, ⟨hvalid, hlater, htenant.symm,
        checkOwnership_self _ (.new obj.meta_.createdBy Cas.defaultTenant) now⟩, hdata, rfl, htags, hscope⟩

/-! ## Two roles and the same bytes -/

/-- The digests of the bytes 7 and 8. -/
def planCid : String := "ca358758f6d27e6cf45272937977a748fd88391db679ceda7dc7bf1f005ee879"

def draftCid : String := "beead77994cf573341ec17b58bbf7eb34d2711c993c1d976b128b3188dc1829a"

/-- A platform on which the byte 7 has a hash of its own. -/
def samplePlatform : SearchPlatform where
  sha256 := fun data => if data = [7] then planCid else draftCid
  fromUtf8 := fun _ => none
  fromUtf8Lossy := fun _ => ""
  toLowercase := id
  f32 := ⟨fun a _ => a, fun a _ => a, fun a _ => a, fun a _ => a, fun _ => 0, fun _ _ => false, fun _ _ => 0⟩
  charLowercase := fun c => [c]
  isAlphanumeric := fun _ => false
  isUppercase := fun _ => false

def emptyKernel : AIKernel where
  permissions := .new
  fs :=
    { cas := ∅, tagIndex := ∅, tagIndexFile := none, recycleBin := ∅, recycleBinFile := none
      ctxLoader := ⟨∅, fun _ => none, fun _ => none⟩, searchIndex := ⟨4, ∅⟩, searchIndexFile := none
      bm25Index := ∅, searchCache := [] }
  knowledgeGraph := none

def sampleInputs : OpInputs := ⟨1, true, .failed⟩

def aliceCreates : KernelOp := .create [7] ["plan"] "alice" none .private_ sampleInputs

/-- Alice's create on an empty kernel is read back, also after a restart. -/
theorem create_readsBack_alice :
    emptyKernel.semanticCreate samplePlatform.toFsPlatform [7] ["plan"] "alice" none .private_ sampleInputs =
        .ok (aliceCreates.apply samplePlatform emptyKernel, planCid) ∧
      ReadsBack samplePlatform.toFsPlatform
        (runKernel samplePlatform (aliceCreates.apply samplePlatform emptyKernel) [.restart [planCid] fun _ => none])
        planCid [7] ["plan"] "alice" .private_ 2 := by
  have hcreate : emptyKernel.semanticCreate samplePlatform.toFsPlatform [7] ["plan"] "alice" none .private_
      sampleInputs = .ok (aliceCreates.apply samplePlatform emptyKernel, planCid) := rfl
  refine ⟨hcreate, (create_readsBack_iff samplePlatform intact_empty [] _ hcreate ?_ 2).mpr ?_⟩
  · intro data h
    by_contra hne
    simp [samplePlatform, hne, planCid, draftCid] at h
  · intro obj hobj
    simp [runKernel] at hobj

/-- Bob creates the bytes Alice has stored: the create succeeds, and Bob is refused the object. -/
theorem second_creator_is_refused :
    ∃ k, (runKernel samplePlatform emptyKernel [aliceCreates]).semanticCreate samplePlatform.toFsPlatform [7] ["todo"]
          "bob" none .shared sampleInputs = .ok (k, planCid) ∧
      ¬ ReadsBack samplePlatform.toFsPlatform k planCid [7] ["todo"] "bob" .shared 2 := by
  refine ⟨_, rfl, ?_⟩
  rintro ⟨obj, hread, -⟩
  cases hread

end Plico.Kernel
