import Eka.Http.Contract
import Eka.Lib.Unwinding

/-!
# What a tenant sees of a history

Requests of all tenants, of callers without a token and of ones that are malformed reach the API
in any order. What a tenant is answered, and what belongs to it in the end, is what it would be
had nobody else sent anything.
-/

namespace Eka

open Py Relational Transition Fallible

/-- A request, with what it meets and the id that it may draw. -/
structure HttpCall (F : Type) where
  env : HttpEnv F
  id : UUID
  request : HttpRequest

/-! ## Ids -/

theorem RegisterDocumentHandler.lookup_id {command : RegisterDocumentCommand} {id : UUID}
    {now : Instant} {t : Documents} {document : Document}
    (h : lookup command id now t = .ok (.inr document)) : document.id = id := by
  obtain ⟨contentHash, -, h⟩ := bind_ok.mp h
  split at h
  · cases h
  · obtain ⟨built, hbuild, h⟩ := bind_ok.mp h
    cases h
    obtain ⟨title, -, hbuild⟩ := bind_ok.mp hbuild
    obtain ⟨sourceType, -, hbuild⟩ := bind_ok.mp hbuild
    cases hbuild
    rfl

/-- A registration adds no other id than the one it draws. -/
theorem RegisterDocumentHandler.handle_rows {command : RegisterDocumentCommand} {id : UUID}
    {now : Instant} {t : Documents} {row : DocumentModel}
    (hrow : row ∈ (handle command id now t).2.rows) : row ∈ t.rows ∨ row.id = id := by
  unfold handle at hrow
  split at hrow
  · exact .inl hrow
  · exact .inl hrow
  · next document hlookup =>
      split at hrow
      · exact .inl hrow
      · next t' hadd =>
          obtain ⟨uri, -, hinsert⟩ := Documents.addCommit_ok hadd
          rcases (Table.mem_insert hinsert).mp hrow with hold | rfl
          · exact .inl hold
          · exact .inr (lookup_id hlookup)

namespace Store.Unused

variable {config : Config} {id other : UUID} {s : Store}

theorem register (h : s.Unused other) (hne : id ≠ other) (command : RegisterDocumentCommand)
    (now : Instant) : Store.Unused
      { s with documents := (RegisterDocumentHandler.handle command id now s.documents).2 }
      other := by
  refine ⟨?_, h.jobs⟩
  intro row hrow
  rcases RegisterDocumentHandler.handle_rows hrow with hold | hnew
  · exact h.documents row hold
  · exact hnew ▸ hne

theorem delete (h : s.Unused other) (command : DeleteDocumentCommand) (now : Instant) :
    Store.Unused { s with documents := (DeleteDocumentHandler.handle command now s.documents).2 }
      other := by
  refine ⟨?_, h.jobs⟩
  intro row hrow
  obtain ⟨old, hold, hid⟩ := DeleteDocumentHandler.handle_ids hrow
  exact hid ▸ h.documents old hold

theorem upload (h : s.Unused other) (hne : id ≠ other) (config : Config)
    (tenantId documentId : UUID) (content : Str) (now : Instant) :
    (UploadDocumentContentHandler.handle config tenantId documentId content id now s).2.Unused
      other := by
  rw [UploadDocumentContentHandler.handle_eq]
  split
  · exact h
  · split
    · exact h
    · split
      · exact ⟨h.documents, h.jobs⟩
      · next jobs henqueue =>
          refine ⟨h.documents, ?_⟩
          intro row hrow
          rcases SqlAlchemyJobQueue.enqueue_ok henqueue with ⟨rfl, -⟩ | ⟨-, hinsert⟩
          · exact h.jobs row hrow
          · rcases (Table.mem_insert hinsert).mp hrow with hold | rfl
            · exact h.jobs row hold
            · exact hne

end Store.Unused

/-- An operation uses no other id than the one it draws. -/
theorem Operation.perform_unused {api : Api} {env : ApiEnv} {id other tenantId : UUID}
    {s : Service} (h : s.store.Unused other) (hne : id ≠ other) (operation : Operation) :
    (operation.perform api env id tenantId s).2.store.Unused other := by
  cases operation with
  | register collectionId title sourceType sourceUri contentHash =>
      exact h.register hne ⟨tenantId, collectionId, title, sourceType, sourceUri, contentHash⟩ _
  | delete documentId => exact h.delete ⟨tenantId, documentId⟩ _
  | upload documentId content => exact h.upload hne api.config tenantId documentId content _
  | get documentId => exact h
  | list request collectionId => exact h
  | listChunks documentId => exact h
  | listJobs request status => exact h
  | search query => exact h

/-! ## Agreement -/

section Agreement

variable {api : Api} {tenantId : UUID} {s₁ s₂ s₃ : Service}

theorem Service.Agrees.refl (api : Api) (tenantId : UUID) (s : Service) :
    s.Agrees api tenantId s := ⟨.refl tenantId s.store, fun _ => rfl⟩

theorem Service.Agrees.symm (h : s₁.Agrees api tenantId s₂) : s₂.Agrees api tenantId s₁ where
  store := ⟨h.store.documents.symm, h.store.contents.symm, h.store.chunks.symm, h.store.jobs.symm⟩
  cache query := (h.cache query).symm

theorem Service.Agrees.trans (h : s₁.Agrees api tenantId s₂) (h' : s₂.Agrees api tenantId s₃) :
    s₁.Agrees api tenantId s₃ where
  store := h.store.trans h'.store
  cache query := (h.cache query).trans (h'.cache query)

theorem Answer.exchange_self (id : UUID) (answer : Answer) : answer.exchange id id = answer := by
  cases answer with
  | registered document =>
      simp only [exchange, DocumentDTO.exchange, Equiv.swap_self, Equiv.refl_apply]
  | _ => rfl

end Agreement

namespace HttpApi

variable {F : Type} {http : HttpApi} {tenantId other id : UUID} {s s₁ s₂ : Service}
  {env : HttpEnv F}

theorem answered_others (hlinked : s.store.Linked http.api.config) (hother : other ≠ tenantId)
    (endpoint : Endpoint) :
    s.Agrees http.api tenantId (http.answered env id other s endpoint).2 := by
  cases hop : operation endpoint with
  | error e =>
      rw [answered_error hop]
      exact .refl http.api tenantId s
  | ok op =>
      rw [answered_ok hop]
      exact Operation.perform_others hlinked hother env.toApiEnv id op

theorem answered_agree (h : s₁.Agrees http.api tenantId s₂)
    (hlinked₁ : s₁.store.Linked http.api.config) (hlinked₂ : s₂.store.Linked http.api.config)
    (hid₁ : s₁.store.Unused id) (hid₂ : s₂.store.Unused id) (endpoint : Endpoint) :
    (http.answered env id tenantId s₁ endpoint).1 = (http.answered env id tenantId s₂ endpoint).1 ∧
      (http.answered env id tenantId s₁ endpoint).2.Agrees http.api tenantId
        (http.answered env id tenantId s₂ endpoint).2 := by
  cases hop : operation endpoint with
  | error e =>
      rw [answered_error hop, answered_error hop]
      exact ⟨rfl, h⟩
  | ok op =>
      obtain ⟨hanswer, hagrees⟩ :=
        Operation.perform_agree h hlinked₁ hlinked₂ hid₁ hid₂ env.toApiEnv op
      rw [answered_ok hop, answered_ok hop]
      refine ⟨?_, hagrees.store.agrees, hagrees.cache⟩
      have hsame : (op.perform http.api env.toApiEnv id tenantId s₂).1 =
          (op.perform http.api env.toApiEnv id tenantId s₁).1 := by
        rw [hanswer]
        cases (op.perform http.api env.toApiEnv id tenantId s₁).1 with
        | error e => rfl
        | ok answer => exact congrArg Except.ok (answer.exchange_self id)
      simp only [hsame]

/-! ## Histories -/

/-- One request after the other. -/
def serveCall (http : HttpApi) (s : Service) (call : HttpCall F) : HttpResponse × Service :=
  http.serve call.env call.id s call.request

/-- The request comes with a token of the tenant. -/
def ownCall (http : HttpApi) (tenantId : UUID) (call : HttpCall F) : Bool :=
  match getCurrentIdentity http.verifier call.env.jwt call.request.bearer call.request.header with
  | .ok identity => identity.tenantId == tenantId
  | .error _ => false

/-- The database is one that the system gets to, with a call to spare for the next request, and
    the ids that the requests draw are fresh. -/
structure Fits (http : HttpApi) (s : Service) (calls : List (HttpCall F)) : Prop where
  reached : ∃ σ c, Reachable (System.step http.api.config) System.init σ ∧ σ.calls c = .idle ∧
    σ.store = s.store
  nodup : (calls.map HttpCall.id).Nodup
  unused : ∀ call ∈ calls, s.store.Unused call.id

namespace Fits

variable {calls calls' : List (HttpCall F)} {call : HttpCall F}

theorem linked (h : http.Fits s calls) : s.store.Linked http.api.config := by
  obtain ⟨σ, c, hreach, -, hstore⟩ := h.reached
  exact hstore ▸ (System.reachable_linked hreach).store

theorem sublist (h : http.Fits s calls) (hsub : calls'.Sublist calls) : http.Fits s calls' where
  reached := h.reached
  nodup := h.nodup.sublist (hsub.map _)
  unused call hcall := h.unused call (hsub.subset hcall)

/-- A request leaves a database that the rest of the history fits. -/
theorem next (h : http.Fits s (call :: calls)) : http.Fits (http.serveCall s call).2 calls := by
  have hrest := h.sublist (List.sublist_cons_self call calls)
  unfold serveCall serve
  split
  · exact hrest
  · next identity hidentity =>
      split
      · cases hop : operation call.request.endpoint with
        | error e =>
            rw [answered_error hop]
            exact hrest
        | ok op =>
            rw [answered_ok hop]
            obtain ⟨σ, c, hreach, hidle, hstore⟩ := h.reached
            obtain ⟨labels, hlabels⟩ := System.operation_run hidle call.env.toApiEnv call.id
              identity.tenantId s.cache op
            refine ⟨⟨_, c, hreach.trans_run hlabels, hidle, ?_⟩, hrest.nodup, ?_⟩
            · rw [hstore]
            · intro other hother
              have hne : call.id ≠ other.id := fun heq => (List.nodup_cons.mp h.nodup).1
                (heq ▸ List.mem_map_of_mem hother)
              exact Operation.perform_unused (hrest.unused other hother) hne op
      · exact hrest

end Fits

/-- The requests of others pass by, and the tenant's own ones tell it nothing of them. -/
theorem unwinds (http : HttpApi) (tenantId : UUID) :
    Unwinds (I := HttpCall F) http.serveCall (http.ownCall tenantId)
      (Service.Agrees http.api tenantId) http.Fits where
  next _ _ _ h := h.next
  trans _ _ _ h h' := h.trans h'
  symm _ _ h := h.symm
  others s call calls h hown := by
    unfold ownCall at hown
    unfold serveCall serve
    cases hidentity : getCurrentIdentity http.verifier call.env.jwt call.request.bearer
        call.request.header with
    | error e => exact .refl http.api tenantId s
    | ok identity =>
        rw [hidentity] at hown
        simp only
        split
        · exact answered_others h.linked (beq_eq_false_iff_ne.mp hown) _
        · exact .refl http.api tenantId s
  same s₁ s₂ call calls calls' hagrees h₁ h₂ hown := by
    unfold ownCall at hown
    unfold serveCall serve
    cases hidentity : getCurrentIdentity http.verifier call.env.jwt call.request.bearer
        call.request.header with
    | error e =>
        rw [hidentity] at hown
        cases hown
    | ok identity =>
        rw [hidentity] at hown
        obtain rfl := beq_iff_eq.mp hown
        simp only
        split
        · exact answered_agree hagrees h₁.linked h₂.linked (h₁.unused call List.mem_cons_self)
            (h₂.unused call List.mem_cons_self) _
        · exact ⟨rfl, hagrees⟩

/-- Whatever requests arrive in whatever order, in any reachable state: what a tenant is answered,
    and what belongs to it afterwards, is the same without the requests of everybody else. -/
theorem history_purged (http : HttpApi) (tenantId : UUID) {calls : List (HttpCall F)}
    (h : http.Fits s calls) :
    seen http.serveCall (http.ownCall tenantId) s calls =
        seen http.serveCall (http.ownCall tenantId) s (calls.filter (http.ownCall tenantId)) ∧
      (after http.serveCall s calls).Agrees http.api tenantId
        (after http.serveCall s (calls.filter (http.ownCall tenantId))) :=
  (http.unwinds tenantId).purge (.refl http.api tenantId s) h (h.sublist List.filter_sublist)

/-! ### A neighbour -/

/-- Tenant 2 registers the document that tenant 1 has. -/
def theirCall : HttpCall Unit :=
  ⟨helloHttpEnv, ⟨50⟩, some "two".toList, none, .registerDocument ⟨⟨2⟩, "Hello".toList,
    "upload".toList, "s3://b/hello".toList, helloDigest⟩⟩

/-- Tenant 1 looks at its own one. -/
def ourCall : HttpCall Unit := ⟨helloHttpEnv, ⟨60⟩, some "one".toList, none, .getDocument ⟨10⟩⟩

theorem helloCalls_filter :
    [theirCall, ourCall].filter (helloHttp.ownCall ⟨1⟩) = [ourCall] := by
  have htheirs : helloHttp.ownCall ⟨1⟩ theirCall = false := by
    unfold ownCall
    rw [show getCurrentIdentity helloHttp.verifier theirCall.env.jwt theirCall.request.bearer
      theirCall.request.header = _ from helloJwt_identity (.inr ⟨rfl, rfl⟩)]
    rfl
  have hours : helloHttp.ownCall ⟨1⟩ ourCall = true := by
    unfold ownCall
    rw [show getCurrentIdentity helloHttp.verifier ourCall.env.jwt ourCall.request.bearer
      ourCall.request.header = _ from helloJwt_identity (.inl ⟨rfl, rfl⟩)]
    rfl
  rw [List.filter_cons_of_neg (Bool.not_eq_true _ ▸ htheirs), List.filter_cons_of_pos hours,
    List.filter_nil]

theorem history_purged_hello : ∃ s,
    run (System.step helloConfig) System.init uploadHello = some s ∧
    seen helloHttp.serveCall (helloHttp.ownCall ⟨1⟩) ⟨s.store, .empty⟩ [theirCall, ourCall] =
      seen helloHttp.serveCall (helloHttp.ownCall ⟨1⟩) ⟨s.store, .empty⟩ [ourCall] := by
  have hrun : run (System.step helloConfig) System.init uploadHello =
      some { System.init with store := helloUploaded 5 } := System.run_uploadHello rfl
  have hunused : ∀ id : UUID, id ∉ [⟨10⟩] ++ [⟨20⟩] → (helloUploaded 5).Unused id :=
    fun id => @Store.unused_of_ids _ [⟨10⟩] [⟨20⟩] rfl rfl id
  have hfits : helloHttp.Fits ⟨helloUploaded 5, .empty⟩ [theirCall, ourCall] := by
    refine ⟨⟨_, 7, ⟨_, hrun⟩, rfl, rfl⟩, by decide, ?_⟩
    intro call hcall
    simp only [List.mem_cons, List.not_mem_nil, or_false] at hcall
    rcases hcall with rfl | rfl
    · exact hunused _ (by decide)
    · exact hunused _ (by decide)
  obtain ⟨hseen, -⟩ := history_purged helloHttp ⟨1⟩ hfits
  rw [helloCalls_filter] at hseen
  exact ⟨_, hrun, hseen⟩

end HttpApi

end Eka
