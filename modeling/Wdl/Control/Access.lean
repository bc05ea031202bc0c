import Wdl.Control.Presence

/-!
# What is admitted into a bundle

The metadata of a bundle is checked when the version is deployed, against metadata of other
versions that was read some time before the commit. `Permitted` is what the access list of a
target allows, and `Admitted` says that the bindings of a bundle are permitted by the metadata
of the very versions they pin, and that the parts of a bundle do not collide with each other.

What was issued under a number does not change, and the commit of a deploy sees that the pinned
versions are still stored: so what was permitted when the metadata was read is still permitted
(`Deployed.admitted`), and a bump carries it over to the new version.
-/

namespace Wdl.Control

/-- The metadata `m` of the target lets the namespace use the entrypoint with these secrets. An
    export of the platform has to be asked for by its name. -/
inductive Permitted (callerNs : Ns) (asked : String → Prop) (target : VersionId) (m : Meta)
    (entrypoint : String) (secrets : List String) : Prop
  | exported (e : ExportEntry) (mem : e ∈ m.exports) (entry : e.entrypoint = entrypoint)
      (allowed : target.1 ≠ callerNs → callerNs ∈ e.allowedCallers ∨ "*" ∈ e.allowedCallers)
      (platform : target.1 ∈ platformTierReservedNs → ∃ name, e.asAlias = some name ∧ asked name)
      (same : secrets = e.requiredCallerSecrets.getD [])
  /-- A worker without exports is open to its own namespace. -/
  | unlisted (empty : m.exports = []) (own : target.1 = callerNs) (default : entrypoint = "default")
      (tenant : target.1 ∉ platformTierReservedNs) (same : secrets = [])

/-- The deploy asked for the export of the platform with this name under the name of a binding. -/
def Meta.Asked (m : Meta) (binding platform : String) : Prop :=
  ⟨binding, platform⟩ ∈ m.platformBindings

/-- The metadata is fit to be stored under the version. -/
structure Admitted (issued : VersionId → Option Meta) (v : VersionId) (m : Meta) : Prop where
  routes : (m.routes.map routeKey).Nodup
  queues : (m.queueConsumers.map (·.queue)).Nodup
  secrets : v.1 ∉ platformTierReservedNs → ∀ e ∈ m.exports, e.requiredCallerSecrets = none
  pins : ∀ binding ns service version entrypoint secrets,
    (binding, Binding.service ns service (some version) entrypoint secrets) ∈ m.bindings →
      ∃ t, issued (ns.getD v.1, service, version) = some t ∧
        Permitted v.1 (m.Asked binding) (ns.getD v.1, service, version) t
          (entrypoint.getD "default") (secrets.getD [])

/-- Everything that was issued was admitted. -/
def AllAdmitted (db : Db) : Prop := ∀ v m, db.issued v = some m → Admitted db.issued v m

theorem Admitted.mono {issued issued' : VersionId → Option Meta} {v : VersionId} {m : Meta}
    (h : Admitted issued v m) (hle : ∀ v m, issued v = some m → issued' v = some m) :
    Admitted issued' v m where
  routes := h.routes
  queues := h.queues
  secrets := h.secrets
  pins binding ns service version entrypoint secrets hb := by
    obtain ⟨t, ht, hpermitted⟩ := h.pins binding ns service version entrypoint secrets hb
    exact ⟨t, hle _ t ht, hpermitted⟩

/-! ## Exports -/

/-- The exports of a worker of a tenant ask for no secrets. -/
theorem parseExports_secrets {ns : Ns} {raw exports : List ExportEntry}
    (h : parseExports ns raw = .ok exports) (hns : ns ∉ platformTierReservedNs) {e : ExportEntry}
    (he : e ∈ exports) : e.requiredCallerSecrets = none := by
  rw [parseExports] at h
  cases hparsed : raw.mapM (parseExport ns) with
  | error e => rw [hparsed] at h; cases h
  | ok parsed =>
    rw [hparsed] at h
    split at h
    · cases h
      obtain ⟨x, -, hx⟩ := exists_of_forall₂_right (forall₂_of_mapM_ok hparsed) he
      rw [parseExport] at hx
      split at hx
      · cases hx
      · split at hx
        · cases hx
        · rename_i hplain
          cases hx
          rw [not_or, not_not, not_not] at hplain
          exact hplain.2
    · cases h

/-! ## Linking -/

section Linking

variable {caller : WorkerId} {ns : Option Ns} {service : Worker} {version : Version}
  {entrypoint : Option String} {secrets : Option (List String)}

/-- What is known of a service binding that could be linked, when `exports` are those of the
    metadata that was found. -/
structure LinkedTo (caller : WorkerId) (exports : List ExportEntry) (target : WorkerId)
    (entrypoint : String) (secrets : Option (List String)) : Prop where
  tenant : target.1 ∉ platformTierReservedNs
  noSecrets : secrets = none
  allowed : (∃ e ∈ exports, e.entrypoint = entrypoint ∧
      evaluateServiceBindingAcl caller.1 target.1 e.allowedCallers) ∨
    (exports = [] ∧ entrypoint = "default" ∧ caller.1 = target.1)

theorem linkServiceBinding_ok {versions : WorkerId → Option Version}
    {metas : VersionId → Option Meta} {request : Binding}
    (h : linkServiceBinding caller versions metas request =
      .ok (.service ns service (some version) entrypoint secrets)) :
    versions (ns.getD caller.1, service) = some version ∧
      LinkedTo caller (((metas (ns.getD caller.1, service, version)).map (·.exports)).getD [])
        (ns.getD caller.1, service) (entrypoint.getD "default") secrets := by
  cases request with
  | service ns' service' version' entrypoint' secrets' =>
    rw [linkServiceBinding] at h
    dsimp only at h
    split at h
    · cases h
    split at h
    · cases h
    rename_i htenant
    split at h
    · cases h
    split at h
    · cases h
    rename_i targetVersion hversion
    split at h
    · split at h
      · cases h
      · rename_i e hfind
        split at h
        · rename_i hacl
          cases h
          refine ⟨hversion, htenant, rfl, .inl ⟨e, List.mem_of_find?_eq_some hfind, ?_, hacl⟩⟩
          simpa using List.find?_some hfind
        · cases h
    · rename_i hempty
      split at h
      · cases h
      · rename_i hdefault
        split at h
        · cases h
        · rename_i hsame
          cases h
          rw [not_not] at hempty hdefault hsame
          exact ⟨hversion, htenant, rfl, .inr ⟨hempty, hdefault, hsame⟩⟩
  | d1 | durableObject | other => cases h

theorem evaluateServiceBindingAcl_iff {callerNs targetNs : Ns} {allowedCallers : List Ns} :
    evaluateServiceBindingAcl callerNs targetNs allowedCallers = true ↔
      (targetNs ≠ callerNs → callerNs ∈ allowedCallers ∨ "*" ∈ allowedCallers) := by
  rw [evaluateServiceBindingAcl, decide_eq_true_iff, eq_comm (a := callerNs)]
  tauto

/-- A linked binding is permitted by the exports it was linked with. -/
theorem LinkedTo.permitted {t : Meta} {target : WorkerId} {entrypoint : String}
    (h : LinkedTo caller t.exports target entrypoint secrets)
    (hsecrets : ∀ e ∈ t.exports, e.requiredCallerSecrets = none) (asked : String → Prop) :
    Permitted caller.1 asked (target.1, target.2, version) t entrypoint (secrets.getD []) := by
  rw [h.noSecrets]
  rcases h.allowed with ⟨e, he, hentry, hacl⟩ | ⟨hempty, hdefault, hsame⟩
  · refine .exported e he hentry (evaluateServiceBindingAcl_iff.1 hacl)
      (fun hplatform => absurd hplatform h.tenant) ?_
    rw [hsecrets e he]
  · exact .unlisted hempty hsame.symm hdefault h.tenant rfl

theorem linkPlatformBinding_ok {callerNs : Ns} {request : PlatformBindingRequest}
    {existing : List (String × Binding)} {exports : List PlatformExport}
    (h : linkPlatformBinding callerNs request existing exports =
      .ok (.service ns service (some version) entrypoint secrets)) :
    ∃ e ∈ exports, (ns.getD callerNs, service, version) = e.target ∧
      e.entry.asAlias = some request.platform ∧
      e.entry.entrypoint = entrypoint.getD "default" ∧
      evaluateServiceBindingAcl callerNs e.target.1 e.entry.allowedCallers ∧
      secrets.getD [] = e.entry.requiredCallerSecrets.getD [] := by
  rw [linkPlatformBinding] at h
  split at h
  · cases h
  split at h
  · cases h
  rename_i e hfind
  split at h
  · rename_i hacl
    cases h
    refine ⟨e, List.mem_of_find?_eq_some hfind, rfl, ?_, ?_, hacl, ?_⟩
    · simpa using List.find?_some hfind
    · split_ifs with hdefault
      · exact hdefault
      · rfl
    · split_ifs with hempty
      · exact hempty.symm
      · rfl
  · cases h

end Linking

/-! ## Deploys -/

theorem mem_extractOutgoingRefs {bindings : List (String × Binding)} {callerNs : Ns}
    {ref : OutgoingRef} :
    ref ∈ extractOutgoingRefs bindings callerNs ↔ ∃ ns service version entrypoint secrets,
      (ref.binding, Binding.service ns service (some version) entrypoint secrets) ∈ bindings ∧
        ref.target = (ns.getD callerNs, service, version) := by
  rw [extractOutgoingRefs, List.mem_filterMap]
  constructor
  · rintro ⟨⟨binding, b⟩, hb, heq⟩
    split at heq
    · rename_i ns service version entrypoint secrets hx
      cases hx
      cases heq
      exact ⟨ns, service, version, entrypoint, secrets, hb, rfl⟩
    · cases heq
  · rintro ⟨ns, service, version, entrypoint, secrets, hb, heq⟩
    obtain ⟨target, binding⟩ := ref
    obtain rfl : target = _ := heq
    exact ⟨_, hb, rfl⟩

/-- A service binding of the stored metadata is one of the linked ones. -/
theorem mem_committedMeta_service {prepared : Meta} {refs : List ResolvedD1Ref} {storageId : String}
    {workflowKey : String → String} {binding : String} {ns : Option Ns} {service : Worker}
    {version : Option Version} {entrypoint : Option String} {secrets : Option (List String)}
    (h : (binding, Binding.service ns service version entrypoint secrets) ∈
      (committedMeta prepared refs storageId workflowKey).bindings) :
    (binding, Binding.service ns service version entrypoint secrets) ∈ prepared.bindings := by
  rw [committedMeta, List.map_map] at h
  obtain ⟨⟨name, b⟩, hb, heq⟩ := List.mem_map.1 h
  rw [Function.comp_apply, attachDatabases] at heq
  split at heq
  · cases heq
  · cases b with
    | service ns' service' version' entrypoint' secrets' => cases heq; exact hb
    | d1 | durableObject | other => cases heq

/-- What an outlook knows of the bundles that were stored before. -/
structure Outlook.Remembers (o : Outlook) : Prop where
  numbered : ∀ d, o.inv d → Numbered d
  indexed : ∀ d, o.inv d → Indexed d
  later : ∀ a b, o.rel a b → Later a b

section Deploys

variable {o : Outlook} {db : Db} {v : VersionId} {ns : Option Ns} {service : Worker}
  {version : Version} {entrypoint : Option String} {secrets : Option (List String)}
  {caller : WorkerId}

/-- The metadata that a service binding was linked with is that of the pinned version. -/
theorem LinkedService.permitted (ho : o.Remembers) (ha : AllAdmitted db)
    (hl : LinkedService o db caller (.service ns service (some version) entrypoint secrets))
    (hstored : db.bundle (ns.getD caller.1, service, version) ≠ none) (asked : String → Prop) :
    ∃ t, db.issued (ns.getD caller.1, service, version) = some t ∧
      Permitted caller.1 asked (ns.getD caller.1, service, version) t (entrypoint.getD "default")
        (secrets.getD []) := by
  obtain ⟨versions, metas, request, hlink, hread⟩ := hl
  obtain ⟨hversion, hlinked⟩ := linkServiceBinding_ok hlink
  obtain ⟨d, d', hd, hdd', hd', hdb, hactive, hmeta⟩ := hread _ _ hversion
  rw [hmeta] at hlinked
  cases ht : d'.bundle (ns.getD caller.1, service, version) with
  | none =>
    -- it was stored when it was active, and would be gone for good
    obtain ⟨t, ht₀⟩ := (ho.indexed d hd).stored hactive
    have hissued := (ho.later d d' hdd').issued _ t ((ho.numbered d hd).stored _ t ht₀)
    exact absurd ((ho.later d' db hdb).gone _ t hissued ht) hstored
  | some t =>
    rw [ht] at hlinked
    have hissued := (ho.later d' db hdb).issued _ t ((ho.numbered d' hd').stored _ t ht)
    exact ⟨t, hissued, hlinked.permitted ((ha _ t hissued).secrets hlinked.tenant) asked⟩

theorem LinkedPlatform.permitted (ho : o.Remembers) {requests : List PlatformBindingRequest}
    {binding : String}
    (hl : LinkedPlatform o db caller requests
      (binding, .service ns service (some version) entrypoint secrets)) :
    ∃ t, db.issued (ns.getD caller.1, service, version) = some t ∧
      Permitted caller.1 (fun name => ⟨binding, name⟩ ∈ requests)
        (ns.getD caller.1, service, version) t (entrypoint.getD "default") (secrets.getD []) := by
  obtain ⟨request, hrequest, rfl, existing, exports, hlink, hexports⟩ := hl
  obtain ⟨e, he, htarget, hname, hentry, hacl, hsecrets⟩ := linkPlatformBinding_ok hlink
  obtain ⟨d, hd, hdb, t, ht, hmem⟩ := hexports e he
  rw [htarget]
  exact ⟨t, (ho.later d db hdb).issued _ t ((ho.numbered d hd).stored _ t ht),
    .exported e.entry hmem hentry (evaluateServiceBindingAcl_iff.1 hacl)
      (fun _ => ⟨_, hname, hrequest⟩) hsecrets⟩

theorem Deployed.admitted (ho : o.Remembers) (ha : AllAdmitted db) {prepared : Meta}
    {refs : List ResolvedD1Ref} (storageId : String) (workflowKey : String → String)
    (hd : Deployed o db v prepared refs) :
    Admitted db.issued v (committedMeta prepared refs storageId workflowKey) := by
  obtain ⟨raw, r, bindings, hprepare, rfl, hlinked⟩ := hd.request
  have hprepared := prepareDeployRequest_ok hprepare
  refine ⟨hprepared.routes, hprepared.queues,
    fun htenant e he => parseExports_secrets hprepared.exports htenant he, ?_⟩
  intro binding ns service version entrypoint secrets hb
  have hb := mem_committedMeta_service hb
  have href : (⟨(ns.getD v.1, service, version), binding⟩ : OutgoingRef) ∈
      extractOutgoingRefs (preparedMeta r bindings).bindings v.1 :=
    mem_extractOutgoingRefs.2 ⟨ns, service, version, entrypoint, secrets, hb, rfl⟩
  rcases hlinked.linked _ hb with hservice | hplatform
  · exact hservice.permitted ho ha (hd.targets _ href).2 _
  · exact hplatform.permitted ho

end Deploys

theorem BundleStep.admitted {o : Outlook} {db db' : Db} {i : ℕ} (ho : o.Remembers)
    (hheld : ∀ v, o.held v db → Held i v db) (hn : Numbered db) (hs : BundleStep o db db')
    (h : AllAdmitted db) : AllAdmitted db' := by
  have hlater := hs.later hheld
  intro v m hm
  cases hs with
  | same bundle issued =>
    rw [issued] at hm ⊢
    exact h v m hm
  | issue v' m' held origin bundle issued =>
    rw [issued, (hheld v' held).2, Option.getD_none, Function.update_apply] at hm
    split at hm
    · rename_i hv
      cases hm
      subst hv
      refine .mono ?_ hlater.issued
      cases origin with
      | deploy prepared refs storageId workflowKey hd =>
        exact hd.admitted ho h storageId workflowKey
      | bump current _ active stored =>
        -- the metadata is that of the active version of the same worker
        have hcurrent := h _ _ (hn.stored _ _ stored)
        exact ⟨hcurrent.routes, hcurrent.queues, hcurrent.secrets, hcurrent.pins⟩
    · exact (h v m hm).mono hlater.issued
  | remove w gone versions issued inactive =>
    rw [issued] at hm ⊢
    exact h v m hm

end Wdl.Control
