import ChainGuard.OffChain.CredentialStoreSteps

/-! What the credential store loses. A call that overlaps the first load, or that follows a failure, goes
on with records that the file does not hold; in the runs without such calls nothing is lost. -/
namespace ChainGuard.OffChain.OpaqueCredentialStore
open History WriteBehind
set_option autoImplicit false

variable {file : Option StoreFile} {hist : List (Transition Store Event)} {s s' : Store} {e : Event}

/-! ## The property -/

/-- The records that the puts which have resolved stored or the file held, without those deleted since. -/
def promised (file : Option StoreFile) (s : Store) (hist : List (Transition Store Event)) : Records :=
  applied (contents file) ((journal hist).filter fun m => m.value.isNone || s.resolved m.call)

/-- The call succeeds as soon as its pieces, its read and its write go on without a failure. -/
def CanResolve (s : Store) (id : ℕ) : Prop :=
  ∃ later s', RunFrom Steps s later s' ∧ (∀ t ∈ later, ∀ id, ¬ FailsFor t id) ∧ s'.resolved id = true

structure LosesNothing (file : Option StoreFile) (hist : List (Transition Store Event)) (s : Store) : Prop where
  reads : ∀ t earlier, t :: earlier <:+ hist → ∀ id now account value, t.label = .resume id now →
    t.pre.calls id = some { operation := .get account, stage := .loaded } →
    t.post.calls id = some { operation := .get account, stage := .resolved value } →
    value = promised file t.pre earlier account
  reflected : ∃ saved, saved <:+ journal hist ∧ contents s.file = applied (contents file) saved ∧
    ∀ id call value, s.calls id = some call → call.stage = .resolved value → call.operation.key ≠ none →
      ∃ m ∈ saved, m.call = id ∧ call.operation.Makes m
  /-- Only the write of a deletion drops a record, and only that of its account. -/
  kept : ∀ t ∈ hist, ∀ account, contents t.pre.file account ≠ none → contents t.post.file account = none →
    ∃ id snapshot rest stage, t.label = .write false ∧ t.pre.pendingWrite.queue = (id, snapshot) :: rest ∧
      t.pre.calls id = some { operation := .delete account, stage }
  recovers : ∀ t ∈ hist, ∀ failed, FailsFor t failed → ∀ id call, t.post.next ≤ id → s.calls id = some call →
    (∃ t' ∈ hist, FailsFor t' id) ∨ CanResolve s id

/-! ## Runs -/

theorem phase (hversion : ∀ f ∈ file, f.version = STORE_VERSION) (h : StoreRun file hist s)
    (hundisturbed : ∀ t earlier, t :: earlier <:+ hist → Undisturbed earlier t.pre t.label) :
    Unloaded file hist s ∨ Once Loads hist ∧ Ready file hist s := by
  induction h with
  | start hinit =>
    subst hinit
    left
    exact
      { filePath := rfl, file_eq := rfl, records := rfl, pendingWrite := rfl, unmutated := rfl
        unloaded := fun ⟨_, hmem, _⟩ => by cases hmem
        begun := ⟨fun _ => rfl, fun _ => rfl⟩, fresh := fun _ _ => rfl, calls := nofun, failed := List.forall_mem_nil _ }
  | @next hist s s' e hrun hstep ih =>
    obtain ⟨hlast, hbefore⟩ := forall_suffix_cons.mp hundisturbed
    subst hstep
    rcases ih hbefore with hunloaded | ⟨hloads, hready⟩
    · exact hunloaded.next hversion hlast
    · exact .inr ⟨once_cons.mpr (.inr hloads), hready.next hlast⟩

theorem exec_file (s : Store) (e : Event) : (exec s e).file = s.file ∨
    ∃ id snapshot rest, e = .write false ∧ s.pendingWrite.queue = (id, snapshot) :: rest ∧
      (exec s e).file = some { version := STORE_VERSION, records := snapshot } := by
  cases e with
  | call operation =>
    left
    simp only [exec, start, load]
    split_ifs
    · rfl
    · rfl
    · rfl
  | read id fails =>
    left
    simp only [exec]
    split
    · rfl
    · rfl
  | resume id now =>
    left
    simp only [exec]
    split
    · next call _ =>
      obtain ⟨operation, stage⟩ := call
      cases stage with
      | read content =>
        simp only [advance]
        split
        · rfl
        · rfl
      | loaded =>
        cases operation with
        | get account => rfl
        | put account registrationRecord => exact (persist_frame _ id).2.1
        | delete account => exact (persist_frame _ id).2.1
      | _ => rfl
    · rfl
  | write fails =>
    simp only [exec, finishWrite]
    split
    · exact .inl rfl
    · next id snapshot rest hhead =>
      cases fails with
      | true => exact .inl rfl
      | false => exact .inr ⟨id, snapshot, rest, rfl, hhead, rfl⟩

theorem Ready.dropped (h : Ready file hist s) {account : JsString} (hheld : contents s.file account ≠ none)
    (hdropped : contents (exec s e).file account = none) :
    ∃ id snapshot rest stage, e = .write false ∧ s.pendingWrite.queue = (id, snapshot) :: rest ∧
      s.calls id = some { operation := .delete account, stage } := by
  rcases exec_file s e with hsame | ⟨id, snapshot, rest, rfl, hhead, hfile⟩
  · rw [hsame] at hdropped
    exact absurd hdropped hheld
  · obtain ⟨m, newer, saved, hjournal, hid, hcontents, hsnapshot, _⟩ := h.head hhead
    have hafter : Function.update (applied (contents file) saved) m.key m.value account = none := by
      rw [hfile, hsnapshot, applied_cons] at hdropped
      exact hdropped
    have hkey : account = m.key := by
      by_contra hne
      rw [Function.update_of_ne hne, ← hcontents] at hafter
      exact hheld hafter
    rw [hkey, Function.update_self] at hafter
    obtain ⟨⟨operation, stage⟩, hcall, hmakes⟩ := h.made m (hjournal ▸ List.mem_append_right _ (List.mem_cons_self ..))
    refine ⟨id, snapshot, rest, stage, rfl, hhead, ?_⟩
    rw [← hid, hcall]
    cases operation with
    | get => exact hmakes.elim
    | put =>
      have hsome := hmakes.2
      rw [hafter] at hsome
      cases hsome
    | delete => rw [hkey, hmakes.1]

theorem resolved_iff {id : ℕ} : s.resolved id = true ↔
    ∃ operation value, s.calls id = some { operation, stage := .resolved value } := by
  unfold Store.resolved
  split
  · next operation value hcall => exact ⟨fun _ => ⟨operation, value, hcall⟩, fun _ => rfl⟩
  · next hother => exact ⟨nofun, fun ⟨operation, value, hcall⟩ => absurd hcall (hother operation value)⟩

theorem canResolve_get {id : ℕ} {account : JsString}
    (hcall : s.calls id = some { operation := .get account, stage := .loaded }) : CanResolve s id := by
  refine ⟨_, _, .next (.start rfl) (rfl : Steps s (.resume id []) _), ?_, ?_⟩
  · intro t ht id' hfails
    obtain rfl := List.mem_singleton.mp ht
    cases hfails
  · have hafter : exec s (.resume id []) = s.setStage id (.resolved (s.records account)) := by
      simp [exec, hcall, advance, get]
    rw [hafter, resolved_iff]
    exact ⟨_, _, setStage_self hcall⟩

theorem canResolve_mutation {id : ℕ} {call : Call} (hpath : s.filePath = true) (hwrite : s.pendingWrite = {})
    (hcall : s.calls id = some call) (hstage : call.stage = .loaded) (hkey : call.operation.key ≠ none) :
    CanResolve s id := by
  obtain ⟨operation, stage⟩ := call
  obtain rfl := hstage
  obtain ⟨records, hpersist⟩ : ∃ records, exec s (.resume id []) = persist id { s with records } := by
    cases operation with
    | get account => exact absurd rfl hkey
    | put account registrationRecord => exact ⟨_, by simp only [exec, hcall]; rfl⟩
    | delete account => exact ⟨_, by simp only [exec, hcall]; rfl⟩
  refine ⟨_, _, .next (.next (.next (.start rfl) (rfl : Steps s (.resume id []) _))
    (rfl : Steps _ (.write false) _)) (rfl : Steps _ (.resume id []) _), ?_, ?_⟩
  · intro t ht id' hfails
    simp only [List.mem_cons, List.not_mem_nil, or_false] at ht
    rcases ht with rfl | rfl | rfl
    · cases hfails
    · cases hfails
    · cases hfails
  · rw [hpersist]
    simp [persist, hpath, hwrite, exec, finishWrite, Store.setStage, Store.setStages, hcall, advance, resolved_iff]

/-! ## What a phase tells -/

section Phases
variable (h : Unloaded file hist s ∨ Once Loads hist ∧ Ready file hist s)
include h

theorem phase_reads {id : ℕ} {now account : JsString} {value : Option CredentialRecord}
    (hundisturbed : Undisturbed hist s (.resume id now))
    (hcall : s.calls id = some { operation := .get account, stage := .loaded })
    (hresolved : (exec s (.resume id now)).calls id = some { operation := .get account, stage := .resolved value }) :
    value = promised file s hist account := by
  simp only [Undisturbed, hcall] at hundisturbed
  obtain ⟨hloads, hlast⟩ := hundisturbed
  have hvalue : value = s.records account := by
    have hafter : exec s (.resume id now) = s.setStage id (.resolved (s.records account)) := by
      simp [exec, hcall, advance, get]
    rw [hafter, setStage_self hcall] at hresolved
    simpa using hresolved.symm
  rcases h with hunloaded | ⟨_, hready⟩
  · exact absurd hloads hunloaded.unloaded
  · rw [hvalue, hready.records, promised, applied_filter]
    intro m hm
    cases hm' : m.value with
    | none => rfl
    | some record => exact hlast account rfl m hm (by rw [hm']; exact Option.some_ne_none _)

theorem phase_reflected : ∃ saved, saved <:+ journal hist ∧ contents s.file = applied (contents file) saved ∧
    ∀ id call value, s.calls id = some call → call.stage = .resolved value → call.operation.key ≠ none →
      ∃ m ∈ saved, m.call = id ∧ call.operation.Makes m := by
  rcases h with hunloaded | ⟨_, hready⟩
  · refine ⟨[], List.nil_suffix, congrArg contents hunloaded.file_eq, fun id call value hcall hstage _ => ?_⟩
    obtain ⟨_, hopening⟩ := hunloaded.opening hcall (by rw [hstage]; exact nofun)
    rw [hstage] at hopening
    cases hopening
  · obtain ⟨waiting, saved, hjournal, hcontents, _, hdone⟩ := hready.saved
    refine ⟨saved, hjournal ▸ List.suffix_append _ _, hcontents, fun id call value hcall hstage hkey => ?_⟩
    obtain ⟨m, hm, rfl⟩ := hdone id call hcall hkey (.inr ⟨value, hstage⟩)
    obtain ⟨call', hcall', hmakes⟩ := hready.made m (hjournal ▸ List.mem_append_right _ hm)
    obtain rfl := Option.some.inj (hcall.symm.trans hcall')
    exact ⟨m, hm, rfl, hmakes⟩

theorem phase_kept {account : JsString} (hheld : contents s.file account ≠ none)
    (hdropped : contents (exec s e).file account = none) :
    ∃ id snapshot rest stage, e = .write false ∧ s.pendingWrite.queue = (id, snapshot) :: rest ∧
      s.calls id = some { operation := .delete account, stage } := by
  rcases h with hunloaded | ⟨_, hready⟩
  · rcases exec_file s e with hsame | ⟨_, _, _, _, hhead, _⟩
    · rw [hsame] at hdropped
      exact absurd hdropped hheld
    · rw [hunloaded.pendingWrite] at hhead
      cases hhead
  · exact hready.dropped hheld hdropped

theorem phase_recovers {t : Transition Store Event} (ht : t ∈ hist) {failed : ℕ} (hfails : FailsFor t failed) {id : ℕ}
    {call : Call} (hle : t.post.next ≤ id) (hcall : s.calls id = some call) : CanResolve s id := by
  rcases h with hunloaded | ⟨_, hready⟩
  · obtain ⟨hpos, _⟩ := hunloaded.failed t ht failed hfails
    have hstage := hunloaded.calls id call hcall
    rw [if_neg (hpos.trans_le hle).ne'] at hstage
    obtain ⟨operation, stage⟩ := call
    obtain rfl := hstage
    cases operation with
    | get account => exact canResolve_get hcall
    | put | delete => exact canResolve_mutation hunloaded.filePath hunloaded.pendingWrite hcall rfl nofun
  · obtain ⟨_, hgets⟩ := hready.failed t ht failed hfails
    have hkey := hgets id call hle hcall
    obtain ⟨operation, stage⟩ := call
    rcases (hready.calls id _ hcall).2.2 hkey with rfl | ⟨value, rfl⟩
    · cases operation with
      | get account => exact canResolve_get hcall
      | put | delete => cases hkey
    · exact ⟨[], s, .start rfl, List.forall_mem_nil _, resolved_iff.mpr ⟨_, _, hcall⟩⟩

end Phases

/-- In every run of undisturbed steps the store loses nothing. -/
theorem loses_nothing (hversion : ∀ f ∈ file, f.version = STORE_VERSION) (h : StoreRun file hist s)
    (hundisturbed : ∀ t earlier, t :: earlier <:+ hist → Undisturbed earlier t.pre t.label) :
    LosesNothing file hist s := by
  have hphase : ∀ t earlier, t :: earlier <:+ hist →
      Unloaded file earlier t.pre ∨ Once Loads earlier ∧ Ready file earlier t.pre := by
    intro t earlier hsuffix
    refine phase hversion (h.suffix_step hsuffix).1 fun t' earlier' hsuffix' => ?_
    exact hundisturbed t' earlier' (hsuffix'.trans ((List.suffix_cons _ _).trans hsuffix))
  have hnow := phase hversion h hundisturbed
  refine ⟨?_, phase_reflected hnow, ?_, ?_⟩
  · intro t earlier hsuffix id now account value hlabel hcall hresolved
    have hstep : exec t.pre t.label = t.post := (h.suffix_step hsuffix).2
    have hcond := hundisturbed t earlier hsuffix
    rw [hlabel] at hstep hcond
    rw [← hstep] at hresolved
    exact phase_reads (hphase t earlier hsuffix) hcond hcall hresolved
  · intro t ht account hheld hdropped
    obtain ⟨earlier, hsuffix, _, hstep⟩ := h.of_mem ht
    rw [← hstep] at hdropped
    exact phase_kept (hphase t earlier hsuffix) hheld hdropped
  · intro t ht failed hfails id call hle hcall
    exact .inr (phase_recovers hnow ht hfails hle hcall)

/-! ## Failing runs -/

/-- A put or delete that can only be rejected: `pendingWrite` stays rejected. -/
structure Blocked (s : Store) (id : ℕ) : Prop where
  filePath : s.filePath = true
  pendingWrite : s.pendingWrite = { rejected := true }
  existing : id < s.next
  call : ∃ call, s.calls id = some call ∧ call.operation.key ≠ none ∧
    (call.stage = .loaded ∨ call.stage = .rejected)

theorem Blocked.staged {id id' : ℕ} {stage : Stage} (h : Blocked s id) (records : Records)
    (hself : id = id' → stage = .loaded ∨ stage = .rejected) :
    Blocked ({ s with records }.setStage id' stage) id := by
  refine ⟨h.filePath, h.pendingWrite, h.existing, ?_⟩
  obtain ⟨call, hcall, hkey, hstage⟩ := h.call
  by_cases hid : id = id'
  · subst hid
    exact ⟨{ call with stage }, setStage_self hcall, hkey, hself rfl⟩
  · refine ⟨call, ?_, hkey, hstage⟩
    simpa [Store.setStage, Store.setStages, hid] using hcall

theorem Blocked.persist {id id' : ℕ} (h : Blocked s id) (records : Records) :
    Blocked (persist id' { s with records }) id := by
  have heq : OpaqueCredentialStore.persist id' { s with records } = { s with records }.setStage id' .rejected := by
    simp [OpaqueCredentialStore.persist, h.filePath, h.pendingWrite]
  rw [heq]
  exact h.staged records fun _ => .inr rfl

theorem Blocked.next {id : ℕ} (h : Blocked s id) (e : Event) : Blocked (exec s e) id := by
  obtain ⟨call, hcall, hkey, hstage⟩ := h.call
  cases e with
  | call operation =>
    have heq : exec s (.call operation) = _ := start_eq h.filePath operation
    rw [heq]
    refine ⟨h.filePath, h.pendingWrite, h.existing.trans (Nat.lt_succ_self _), call, ?_, hkey, hstage⟩
    exact (Function.update_of_ne h.existing.ne _ _).trans hcall
  | read id' fails =>
    simp only [exec]
    split
    · next operation hreading =>
      refine h.staged s.records ?_
      rintro rfl
      obtain rfl := Option.some.inj (hcall.symm.trans hreading)
      simp at hstage
    · exact h
  | resume id' now =>
    simp only [exec]
    split
    · next call' hcall' =>
      obtain ⟨operation, stage⟩ := call'
      have hsame : id = id' → call = { operation, stage } := by
        rintro rfl
        exact Option.some.inj (hcall.symm.trans hcall')
      cases stage with
      | read content =>
        simp only [advance]
        split
        · exact h.staged s.records fun _ => .inr rfl
        · exact h.staged _ fun _ => .inl rfl
      | loaded =>
        cases operation with
        | get account =>
          refine h.staged s.records fun hid => ?_
          rw [hsame hid] at hkey
          exact absurd rfl hkey
        | put account registrationRecord => exact h.persist _
        | delete account => exact h.persist _
      | written =>
        refine h.staged s.records fun hid => ?_
        rw [hsame hid] at hstage
        simp at hstage
      | reading | writing | resolved | rejected => exact h
    · exact h
  | write fails =>
    have heq : exec s (.write fails) = s := by simp [exec, finishWrite, h.pendingWrite]
    rw [heq]
    exact h

/-- After a failed write no put or delete that is called ever resolves. -/
theorem Blocked.not_canResolve {id : ℕ} (h : Blocked s id) : ¬ CanResolve s id := by
  rintro ⟨later, s', hrun, _, hresolved⟩
  have hblocked : Blocked s' id := by
    refine hrun.invariant (I := fun s => Blocked s id) ?_ ?_
    · rintro _ rfl
      exact h
    · rintro s e _ hs rfl
      exact hs.next e
  obtain ⟨call, hcall, _, hstage⟩ := hblocked.call
  obtain ⟨_, _, hend⟩ := resolved_iff.mp hresolved
  rw [hcall, Option.some.injEq] at hend
  subst hend
  simp at hstage

def heldFile : StoreFile where
  version := STORE_VERSION
  records := Function.update (fun _ => none) (js "bob")
    (some { registrationRecord := js "r", createdAt := js "t", updatedAt := js "t" })

def stored (events : List Event) : List (Transition Store Event) × Store :=
  executed exec { file := some heldFile } events

theorem stored_run (events : List Event) : StoreRun (some heldFile) (stored events).1 (stored events).2 := by
  refine executed_run ?_ ?_ events
  · rfl
  · intro s e
    rfl

/-- A put and a get, with their pieces one after the other. -/
def separate : List Event :=
  [.resume 1 [], .call (.get (js "ada")), .resume 0 [], .write false, .resume 0 [], .resume 0 [], .read 0 false,
    .call (.put (js "ada") (js "s"))]

/-- A put that is called while the first load reads the file. -/
def overlapping : List Event :=
  [.write false, .resume 1 [], .call (.put (js "ada") (js "s")), .call (.get (js "bob"))]

def failing : List Event :=
  [.call (.put (js "ada") (js "s")), .write true, .resume 0 [], .resume 0 [], .read 0 false,
    .call (.put (js "ada") (js "s"))]

/-- A put during the first load drops the record of another account, and after a failed write no put ever
succeeds. -/
theorem store_loses :
    StoreRun (some heldFile) (stored overlapping).1 (stored overlapping).2 ∧
    ¬ LosesNothing (some heldFile) (stored overlapping).1 (stored overlapping).2 ∧
    StoreRun (some heldFile) (stored failing).1 (stored failing).2 ∧
    ¬ LosesNothing (some heldFile) (stored failing).1 (stored failing).2 := by
  refine ⟨stored_run _, ?_, stored_run _, ?_⟩
  · intro h
    obtain ⟨id, snapshot, rest, stage, _, hhead, hcall⟩ := h.kept _ (List.mem_cons_self ..) (js "bob")
      (by decide +kernel) (by decide +kernel)
    have hid : some 1 = some id := congrArg (fun queue => queue.head?.map Prod.fst) hhead
    obtain rfl := Option.some.inj hid
    have hoperation : some (Operation.put (js "ada") (js "s")) = some (.delete (js "bob")) :=
      congrArg (Option.map Call.operation) hcall
    cases hoperation
  · intro h
    have hblocked : Blocked (stored failing).2 1 :=
      ⟨rfl, rfl, by decide +kernel, _, rfl, nofun, .inl rfl⟩
    have hfails : FailsFor ((stored failing).1.get ⟨1, by decide⟩) 0 := .write rfl
    have hother : ∀ t ∈ (stored failing).1, ¬ FailsFor t 1 := by
      simp only [failing, stored, executed, List.forall_mem_cons]
      refine ⟨nofun, ?_, nofun, nofun, nofun, nofun, List.forall_mem_nil _⟩
      intro hfailed
      cases hfailed with
      | write hhead =>
        have hid : some 0 = some 1 := congrArg (fun queue => queue.head?.map Prod.fst) hhead
        cases hid
    rcases h.recovers _ (List.get_mem ..) _ hfails 1 _ (by decide +kernel) rfl with ⟨t, ht, hown⟩ | hresolves
    · exact hother t ht hown
    · exact hblocked.not_canResolve hresolves

theorem loses_nothing_separate :
    LosesNothing (some heldFile) (stored separate).1 (stored separate).2 ∧
    ((stored separate).2.file.map fun f => (f.records (js "bob")).isSome) = some true ∧
    (stored separate).2.resolved 1 = true := by
  refine ⟨loses_nothing ?_ (stored_run _) ?_, by decide +kernel, by decide +kernel⟩
  · intro f hf
    obtain rfl := Option.some.inj hf
    rfl
  · have hloads : Once Loads (stored (separate.drop 5)).1 := ⟨_, List.mem_cons_self .., .intro rfl rfl⟩
    have hlater : ∀ t hist, Once Loads hist → Once Loads (t :: hist) := fun _ _ h => once_cons.mpr (.inr h)
    simp only [separate, stored, executed, forall_suffix_cons]
    refine ⟨⟨hlater _ _ (hlater _ _ (hlater _ _ (hlater _ _ hloads))), ?_⟩, absurd rfl, trivial, trivial,
      ⟨hloads, nofun⟩, trivial, trivial, fun _ => rfl, ?_⟩
    · rintro account heq m hm _
      cases heq
      have hid : some 0 = some m.call := congrArg (Option.map Mutation.call) hm
      rw [← Option.some.inj hid]
      rfl
    · intro t earlier hsuffix
      cases List.suffix_nil.mp hsuffix

end ChainGuard.OffChain.OpaqueCredentialStore
