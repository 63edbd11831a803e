import Plico.Model.Api.Connection
import Plico.Proof.Kernel.Managers

/-!
# What a frame asks for

A frame is decoded twice: its head authenticates it and its request is dispatched. Whenever both decoders succeed they
agree on the protocol, the id, the credential and the operation (`decodeHead_agrees`), so a frame with a well-formed
head leads to the call that its request alone determines (`decodeRequestFrame_eq_dispatch_iff`).
-/

namespace Plico.Api

open Except Option Plico.Kernel

/-! ## Fields -/

/-- Leaving out fields with other names keeps what a name stands for. -/
theorem lookup_filter {β : Type} {p : String × β → Bool} {name : String} (hp : ∀ b, p (name, b) = true)
    {fields : List (String × β)} : (fields.filter p).lookup name = fields.lookup name := by
  induction fields with
  | nil => rfl
  | cons field fields ih =>
    obtain ⟨key, value⟩ := field
    by_cases hkey : name = key
    · subst hkey
      rw [List.filter_cons_of_pos (hp value), List.lookup_cons_self, List.lookup_cons_self]
    · have hbeq : (name == key) = false := by simp [hkey]
      by_cases hf : p (key, value) = true
      · rw [List.filter_cons_of_pos hf, List.lookup_cons, List.lookup_cons, ih]
      · rw [List.filter_cons_of_neg hf, List.lookup_cons, hbeq, ih]

variable {fields : List (String × Value)}

theorem structFields_object {names : List String} {field : String → Option Value}
    (h : structFields names (.object fields) = some field) : field = fun name => fields.lookup name := by
  simp only [structFields] at h
  split at h
  · exact (some.inj h).symm
  · cases h

/-! ## The two decoders -/

variable {P : ApiPlatform} {command : PublicCommand}

/-- The variant of a name decodes to commands of that name. -/
theorem operation_of_variant {variant : String × (Value → Option PublicCommand)} (h : variant ∈ commandVariants P)
    {input : Value} (hc : variant.2 input = some command) : command.operation = variant.1 := by
  simp only [commandVariants, List.mem_cons, List.not_mem_nil, or_false] at h
  rcases h with rfl | rfl | rfl | rfl | rfl | rfl | rfl | rfl | rfl | rfl | rfl | rfl | rfl | rfl <;>
    · obtain ⟨a, -, rfl⟩ := map_eq_some_iff.mp hc
      rfl

theorem operation_of_decodeCommand {name : String}
    (h : decodeCommand P fields = some command) (hname : fields.lookup "operation" = some (.string name)) :
    command.operation = name := by
  simp only [decodeCommand, bind_eq_bind, bind_eq_some_iff] at h
  obtain ⟨field, hfield, variant, ⟨tag, htag, hvariant⟩, input, -, hc⟩ := h
  rw [structFields_object hfield] at htag
  cases htag.symm.trans hname
  have hfound : (commandVariants P).find? (fun v => v.1 = name) = some variant := hvariant
  rw [operation_of_variant (List.mem_of_find?_eq_some hfound) hc]
  simpa using List.find?_some hfound

variable {head : PublicRequestHead}

theorem decodeHead_object (h : decodeHead P (.object fields) = some head) :
    (fields.lookup "protocol").bind Value.asStr = some head.protocol ∧
      (fields.lookup "request_id").bind (decodeUuid P) = some head.requestId ∧
      optionField decodeAuth (fields.lookup "auth") = some head.auth ∧
      fields.lookup "operation" = some (.string head.operation) := by
  simp only [decodeHead, bind_eq_bind, bind_eq_some_iff, pure_def, some.injEq] at h
  obtain ⟨field, hfield, protocol, hprotocol, requestId, hid, auth, hauth, operation, ⟨tag, htag, hop⟩, rfl⟩ := h
  rw [structFields_object hfield] at hprotocol hid hauth htag
  refine ⟨bind_eq_some_iff.mpr hprotocol, bind_eq_some_iff.mpr hid, hauth, htag.trans ?_⟩
  cases tag <;> simp_all [Value.asStr]

variable {request : PublicRequest} {value : Value}

/-- A request is an object, and its own fields are read as those of the head are. -/
theorem decodeRequest_eq (h : decodeRequest P value = some request) :
    ∃ fields, value = .object fields ∧
      (fields.lookup "protocol").bind Value.asStr = some request.protocol ∧
      (fields.lookup "request_id").bind (decodeUuid P) = some request.requestId ∧
      optionField decodeAuth (fields.lookup "auth") = some request.auth ∧
      decodeCommand P (fields.filter fun field => field.1 ∉ requestFields) = some request.command := by
  cases value with
  | object fields =>
    simp only [decodeRequest, bind_eq_bind, bind_eq_some_iff, pure_def, some.injEq] at h
    obtain ⟨field, hfield, protocol, hprotocol, requestId, hid, auth, hauth, command, hcommand, rfl⟩ := h
    have hlookup name (hname : name ∈ requestFields) : field name = fields.lookup name := by
      rw [structFields_object hfield]
      exact lookup_filter (fun _ => by simpa using hname)
    rw [hlookup "protocol" (by decide)] at hprotocol
    rw [hlookup "request_id" (by decide)] at hid
    rw [hlookup "auth" (by decide)] at hauth
    exact ⟨fields, rfl, bind_eq_some_iff.mpr hprotocol, bind_eq_some_iff.mpr hid, hauth, hcommand⟩
  | null | bool _ | number _ | string _ | array _ => simp [decodeRequest] at h

/-- The head that authenticates a frame is the head of the request that is dispatched. -/
theorem decodeHead_agrees (hhead : decodeHead P value = some head) (hrequest : decodeRequest P value = some request) :
    head.protocol = request.protocol ∧ head.requestId = request.requestId ∧ head.auth = request.auth ∧
      head.operation = request.command.operation := by
  obtain ⟨fields, rfl, hprotocol, hid, hauth, hcommand⟩ := decodeRequest_eq hrequest
  obtain ⟨hprotocol', hid', hauth', hop⟩ := decodeHead_object hhead
  refine ⟨some.inj (hprotocol'.symm.trans hprotocol), some.inj (hid'.symm.trans hid),
    some.inj (hauth'.symm.trans hauth), ?_⟩
  refine (operation_of_decodeCommand hcommand ?_).symm
  rw [lookup_filter (fun _ => by simp [requestFields])]
  exact hop

theorem operation_mem : command.operation ∈ publicOperations := by
  cases command <;> simp [PublicCommand.operation, publicOperations]

/-! ## Identities -/

/-- The stored credentials have distinct strings. -/
def DistinctTokens (tokens : TokenTable) : Prop :=
  ∀ a ∈ tokens.entries, ∀ b ∈ tokens.entries, a.2.token = b.2.token → a = b

/-- A stored credential with this string that has not expired belongs to the role. -/
def BearerOf (tokens : TokenTable) (now : Nat) (bearer roleId : String) : Prop :=
  ∃ entry ∈ tokens.entries, entry.2.expired now = false ∧ entry.2.token = bearer ∧ entry.2.agentId = roleId

variable {tokens : TokenTable} {now : Nat}

theorem authenticateBearer_eq_ok_iff (hd : DistinctTokens tokens) {bearer roleId : String}
    (hne : bearer ≠ "") : authenticateBearer tokens now bearer = .ok roleId ↔ BearerOf tokens now bearer roleId := by
  rw [authenticateBearer, if_neg hne]
  constructor
  · intro h
    split at h
    next entry hentry =>
      have hmatch := List.find?_some hentry
      simp only [Bool.and_eq_true, Bool.not_eq_true', beq_iff_eq] at hmatch
      exact ⟨entry, List.mem_of_find?_eq_some hentry, hmatch.1, utf8_injective hmatch.2, ok.inj h⟩
    next => cases h
  · rintro ⟨entry, hentry, hexpired, rfl, rfl⟩
    have hfound : ∃ found, tokens.entries.find? (fun e => !e.2.expired now && utf8 e.2.token == utf8 entry.2.token) =
        some found :=
      isSome_iff_exists.mp (List.find?_isSome.mpr ⟨entry, hentry, by simp [hexpired]⟩)
    obtain ⟨found, hfound⟩ := hfound
    have hmatch := List.find?_some hfound
    simp only [Bool.and_eq_true, beq_iff_eq] at hmatch
    obtain rfl : found = entry :=
      hd found (List.mem_of_find?_eq_some hfound) entry hentry (utf8_injective hmatch.2)
    rw [hfound]

/-- The identity a frame has on a transport. -/
def Identified (transport : TransportKind) (tokens : TokenTable) (now : Nat) (auth : Option PublicAuth)
    (context : PublicRequestContext) : Prop :=
  match transport with
  | .tcp =>
    ∃ bearer roleId, auth = some ⟨bearer⟩ ∧ BearerOf tokens now bearer roleId ∧
      context = .authenticatedRole roleId .tcp
  | .uds => auth = none ∧ context = .localOwner .uds

variable {context : PublicRequestContext} {transport : TransportKind}

theorem authenticateFrame_eq_ok_iff (hd : DistinctTokens tokens) (hauth : validateAuth head.auth = .ok ()) :
    authenticateFrame transport (authenticateBearer tokens now) head = .ok context ↔
      Identified transport tokens now head.auth context := by
  cases transport with
  | uds => cases hhead : head.auth <;> simp [authenticateFrame, Identified, hhead, eq_comm]
  | tcp =>
    cases hhead : head.auth with
    | none => simp [authenticateFrame, Identified, hhead]
    | some auth =>
      have hne : auth.bearer ≠ "" := by
        rw [hhead] at hauth
        simp only [validateAuth, validateNonEmptyBounded, refuse_eq_ok, not_or] at hauth
        rintro hempty
        exact hauth.1 (by rw [hempty]; decide)
      simp only [authenticateFrame, hhead, Identified, some.injEq]
      constructor
      · intro h
        split at h
        next roleId hrole =>
          exact ⟨auth.bearer, roleId, rfl, (authenticateBearer_eq_ok_iff hd hne).mp hrole, (ok.inj h).symm⟩
        next => cases h
      · rintro ⟨bearer, roleId, rfl, hrole, rfl⟩
        rw [(authenticateBearer_eq_ok_iff hd hne).mpr hrole]

/-! ## The call of a frame -/

/-- The call that the request of a frame determines: the request decodes and is valid, the transport identifies its
sender, and it is handed on without its credential. -/
def CallOf (P : ApiPlatform) (transport : TransportKind) (tokens : TokenTable) (now : Nat) (frame : Bytes)
    (call : PublicRequestContext × PublicRequest) : Prop :=
  ∃ request, (P.parseJson frame).bind (decodeRequest P) = some request ∧ request.validate P = .ok () ∧
    Identified transport tokens now request.auth call.1 ∧ call.2 = { request with auth := none }

/-- The head of the frame is well formed. -/
def wellFormed (P : ApiPlatform) (frame : Bytes) : Bool := (frameHead P frame).isOk

variable {frame : Bytes}

theorem frameHead_eq_ok (h : frameHead P frame = .ok head) :
    (P.parseJson frame).bind (decodeHead P) = some head ∧ validateAuth head.auth = .ok () := by
  obtain ⟨head', hdecode, h⟩ := of_seq h
  obtain ⟨_, hmeta, h⟩ := of_seq h
  cases h
  rw [mapError_ok_iff] at hmeta
  obtain ⟨_, _, hmeta⟩ := of_seq hmeta
  obtain ⟨_, _, hmeta⟩ := of_seq hmeta
  exact ⟨required_eq_ok.mp hdecode, hmeta⟩

theorem frameHead_agrees (hhead : frameHead P frame = .ok head)
    (hrequest : (P.parseJson frame).bind (decodeRequest P) = some request) :
    head.auth = request.auth ∧ head.operation = request.command.operation := by
  obtain ⟨value, hvalue, hrequest⟩ := bind_eq_some_iff.mp hrequest
  obtain ⟨value', hvalue', hhead⟩ := bind_eq_some_iff.mp (frameHead_eq_ok hhead).1
  cases hvalue'.symm.trans hvalue
  exact (decodeHead_agrees hhead hrequest).2.2

theorem frameRequest_eq_dispatch_iff {context' : PublicRequestContext} {request' : PublicRequest}
    (hhead : frameHead P frame = .ok head) :
    frameRequest P frame head context = .dispatch context' request' ↔
      ∃ request, (P.parseJson frame).bind (decodeRequest P) = some request ∧ request.validate P = .ok () ∧
        context' = context ∧ request' = { request with auth := none } := by
  unfold frameRequest
  constructor
  · intro h
    split at h
    · cases h
    · split at h
      · cases h
      next request hrequest =>
        split at h
        · cases h
        next hvalid =>
          cases h
          exact ⟨request, hrequest, hvalid, rfl, rfl⟩
  · rintro ⟨request, hrequest, hvalid, rfl, rfl⟩
    have hsupported : head.operationSupported = true := by
      rw [PublicRequestHead.operationSupported, (frameHead_agrees hhead hrequest).2]
      simpa using operation_mem
    simp [hsupported, hrequest, hvalid]

/-- A frame with a well-formed head leads to the call of its request, and to no other. -/
theorem decodeRequestFrame_eq_dispatch_iff (hd : DistinctTokens tokens) (hwf : wellFormed P frame = true) :
    decodeRequestFrame P frame transport (authenticateBearer tokens now) = .ok (.dispatch context request) ↔
      CallOf P transport tokens now frame (context, request) := by
  obtain ⟨head, hhead⟩ : ∃ head, frameHead P frame = .ok head := by
    unfold wellFormed at hwf
    cases h : frameHead P frame with
    | ok head => exact ⟨head, rfl⟩
    | error e => rw [h] at hwf; cases hwf
  have hauth := (frameHead_eq_ok hhead).2
  simp only [decodeRequestFrame, hhead, seq_ok]
  constructor
  · intro h
    split at h
    next rejection hrejected =>
      -- the rejections of the transport are responses
      obtain rfl := ok.inj h
      cases transport <;> simp only [authenticateFrame] at hrejected <;> repeat' split at hrejected
      all_goals cases hrejected
    next context' hcontext =>
      obtain ⟨request', hrequest, hvalid, rfl, rfl⟩ := (frameRequest_eq_dispatch_iff hhead).mp (ok.inj h)
      have hid := (authenticateFrame_eq_ok_iff hd hauth).mp hcontext
      rw [(frameHead_agrees hhead hrequest).1] at hid
      exact ⟨request', hrequest, hvalid, hid, rfl⟩
  · rintro ⟨request', hrequest, hvalid, hid, rfl⟩
    rw [← (frameHead_agrees hhead hrequest).1] at hid
    rw [(authenticateFrame_eq_ok_iff hd hauth).mpr hid]
    exact congrArg _ ((frameRequest_eq_dispatch_iff hhead).mpr ⟨request', hrequest, hvalid, rfl, rfl⟩)

end Plico.Api
