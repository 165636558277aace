import ChainGuard.Library.WriteBehind
import ChainGuard.OffChain.CredentialStore

/-! What the steps of the credential store do to its records, its file and its calls, as long as no call
goes on before the file is loaded and none is to write after a failed write. -/
namespace ChainGuard.OffChain.OpaqueCredentialStore
open History WriteBehind
set_option autoImplicit false

variable {file : Option StoreFile} {hist : List (Transition Store Event)} {s s' : Store} {e : Event}

/-! ## Mutations -/

def Operation.key : Operation → Option JsString
  | .get _ => none
  | .put account _ => some account
  | .delete account => some account

def mutation (t : Transition Store Event) : Option (Mutation JsString CredentialRecord ℕ) :=
  match t.label with
  | .resume id _ =>
    match t.pre.calls id with
    | some { operation, stage := .loaded } =>
      operation.key.map fun key => { call := id, key, value := t.post.records key }
    | _ => none
  | _ => none

def journal (hist : List (Transition Store Event)) : List (Mutation JsString CredentialRecord ℕ) :=
  hist.filterMap mutation

def Operation.Makes (m : Mutation JsString CredentialRecord ℕ) : Operation → Prop
  | .get _ => False
  | .put account registrationRecord =>
    m.key = account ∧ m.value.map (·.registrationRecord) = some registrationRecord
  | .delete account => m.key = account ∧ m.value = none

def contents (file : Option StoreFile) : Records := file.elim (fun _ => none) (·.records)

def Store.resolved (s : Store) (id : ℕ) : Bool :=
  match s.calls id with
  | some { stage := .resolved _, .. } => true
  | _ => false

inductive FailsFor : Transition Store Event → ℕ → Prop
  | read {s s' : Store} {id : ℕ} {operation : Operation} (h : s.calls id = some { operation, stage := .reading }) :
      FailsFor ⟨s, .read id true, s'⟩ id
  | write {s s' : Store} {id : ℕ} {snapshot : Records} {rest : List (ℕ × Records)}
      (h : s.pendingWrite.queue = (id, snapshot) :: rest) : FailsFor ⟨s, .write true, s'⟩ id

/-! ## The condition -/

/-- A transition ends the first load, and the file has been read or does not exist. -/
inductive Loads : Transition Store Event → Prop
  | intro {s s' : Store} {id : ℕ} {now : JsString} {operation : Operation}
      {content : Except ReadFailure StoreFile} {records : Records}
      (h : s.calls id = some { operation, stage := .read content })
      (hrecords : finishLoad s.records content = some records) : Loads ⟨s, .resume id now, s'⟩

/-- A call goes on only once the file has been loaded, no put or delete is called after a failed write, and
a get is answered only when the last put of its account has resolved. -/
def Undisturbed (earlier : List (Transition Store Event)) (s : Store) : Event → Prop
  | .call operation => operation.key ≠ none → s.pendingWrite.rejected = false
  | .resume id _ =>
    match s.calls id with
    | some { operation, stage := .loaded } =>
      Once Loads earlier ∧ ∀ account, operation = .get account → ∀ m,
        ((journal earlier).find? fun m => m.key = account) = some m → m.value ≠ none →
          s.resolved m.call = true
    | _ => True
  | _ => True

/-! ## Before the file is loaded -/

/-- Where the call that loads the file is. -/
inductive Opening (file : Option StoreFile) : Stage → Prop
  | reading : Opening file .reading
  | read : Opening file (.read (readFile false file))
  | failed : Opening file (.read (.error .other))
  | rejected : Opening file .rejected

/-- The first call loads the file, and nothing else has happened to the store. -/
structure Unloaded (file : Option StoreFile) (hist : List (Transition Store Event)) (s : Store) : Prop where
  filePath : s.filePath = true
  file_eq : s.file = file
  records : s.records = fun _ => none
  pendingWrite : s.pendingWrite = {}
  unmutated : journal hist = []
  unloaded : ¬ Once Loads hist
  begun : s.loaded = false ↔ s.next = 0
  fresh : ∀ id, s.next ≤ id → s.calls id = none
  calls : ∀ id call, s.calls id = some call → if id = 0 then Opening file call.stage else call.stage = .loaded
  failed : ∀ t ∈ hist, ∀ id, FailsFor t id → 0 < t.post.next ∧
    ∃ call, s.calls 0 = some call ∧ (call.stage = .read (.error .other) ∨ call.stage = .rejected)

/-- Once the file is loaded, the records are the mutations of what it held, and the file lags behind by
those whose writes wait, or by more when a write has failed. -/
structure Ready (file : Option StoreFile) (hist : List (Transition Store Event)) (s : Store) : Prop where
  filePath : s.filePath = true
  loaded : s.loaded = true
  fresh : ∀ id, s.next ≤ id → s.calls id = none
  records : s.records = applied (contents file) (journal hist)
  saved : ∃ waiting saved, journal hist = waiting ++ saved ∧ contents s.file = applied (contents file) saved ∧
    s.pendingWrite.queue = (if s.pendingWrite.rejected then [] else saves (contents file) waiting saved) ∧
    ∀ id call, s.calls id = some call → call.operation.key ≠ none →
      call.stage = .written ∨ (∃ value, call.stage = .resolved value) → ∃ m ∈ saved, m.call = id
  made : ∀ m ∈ journal hist, ∃ call, s.calls m.call = some call ∧ call.operation.Makes m
  calls : ∀ id call, s.calls id = some call → call.stage ≠ .reading ∧ (∀ content, call.stage ≠ .read content) ∧
    (call.operation.key = none → call.stage = .loaded ∨ ∃ value, call.stage = .resolved value)
  failed : ∀ t ∈ hist, ∀ id, FailsFor t id → s.pendingWrite.rejected = true ∧
    ∀ id' call, t.post.next ≤ id' → s.calls id' = some call → call.operation.key = none

theorem journal_cons (t : Transition Store Event) (hist : List (Transition Store Event)) :
    journal (t :: hist) = (mutation t).toList ++ journal hist := by
  unfold journal
  cases h : mutation t with
  | none => rw [List.filterMap_cons_none h]; rfl
  | some m => rw [List.filterMap_cons_some h]; rfl

/-- A transition that neither mutates, fails nor loads keeps what is said of the history. -/
structure Quiet (t : Transition Store Event) : Prop where
  mutation : mutation t = none
  fails : ∀ id, ¬ FailsFor t id
  loads : ¬ Loads t

theorem Unloaded.quiet (h : Unloaded file hist s) {t : Transition Store Event} (ht : Quiet t) :
    Unloaded file (t :: hist) s where
  __ := h
  unmutated := by rw [journal_cons, ht.mutation, h.unmutated]; rfl
  unloaded := by rw [once_cons]; exact fun hor => hor.elim ht.loads h.unloaded
  failed := by
    intro t' ht' id hfails
    rcases List.mem_cons.mp ht' with rfl | hmem
    · exact absurd hfails (ht.fails id)
    · exact h.failed t' hmem id hfails

theorem Ready.quiet (h : Ready file hist s) {t : Transition Store Event} (ht : Quiet t) :
    Ready file (t :: hist) s := by
  have hjournal : journal (t :: hist) = journal hist := by rw [journal_cons, ht.mutation]; rfl
  exact
    { h with
      records := by rw [hjournal]; exact h.records
      saved := by rw [hjournal]; exact h.saved
      made := by rw [hjournal]; exact h.made
      failed := by
        intro t' ht' id hfails
        rcases List.mem_cons.mp ht' with rfl | hmem
        · exact absurd hfails (ht.fails id)
        · exact h.failed t' hmem id hfails }

theorem quiet_call {operation : Operation} : Quiet ⟨s, .call operation, s'⟩ := ⟨rfl, nofun, nofun⟩

theorem quiet_write : Quiet ⟨s, .write false, s'⟩ := ⟨rfl, nofun, nofun⟩

theorem quiet_resume {id : ℕ} {now : JsString} {call : Call} (hcall : s.calls id = some call)
    (hloaded : call.stage = .loaded → call.operation.key = none)
    (hread : ∀ content, call.stage = .read content → finishLoad s.records content = none) :
    Quiet ⟨s, .resume id now, s'⟩ := by
  refine ⟨?_, nofun, ?_⟩
  · simp only [mutation, hcall]
    split
    · next operation heq =>
      obtain rfl := Option.some.inj heq
      simpa using hloaded rfl
    · rfl
  · rintro ⟨hsome, hrecords⟩
    rw [hcall, Option.some.injEq] at hsome
    subst hsome
    rw [hread _ rfl] at hrecords
    cases hrecords

/-! ### Calls -/

section Start
variable (hpath : s.filePath = true) (operation : Operation)
include hpath

theorem start_eq : start operation s =
    { s with
      loaded := true
      calls := Function.update s.calls s.next
        (some { operation, stage := if s.loaded then .loaded else .reading })
      next := s.next + 1 } := by
  unfold start load
  cases hloaded : s.loaded with
  | false => simp [hpath]
  | true => simp [hloaded]

theorem start_calls {id : ℕ} {call : Call} (h : (start operation s).calls id = some call) :
    id = s.next ∧ call = { operation, stage := if s.loaded then .loaded else .reading } ∨
      id ≠ s.next ∧ s.calls id = some call := by
  rw [start_eq hpath] at h
  by_cases hid : id = s.next
  · subst hid
    exact .inl ⟨rfl, Option.some.inj ((Function.update_self ..).symm.trans h).symm⟩
  · exact .inr ⟨hid, (Function.update_of_ne hid _ _).symm.trans h⟩

theorem start_calls_of_some {id : ℕ} {call : Call} (hfresh : ∀ id, s.next ≤ id → s.calls id = none)
    (h : s.calls id = some call) : (start operation s).calls id = some call := by
  have hne : id ≠ s.next := by
    rintro rfl
    rw [hfresh _ le_rfl] at h
    cases h
  rw [start_eq hpath]
  exact (Function.update_of_ne hne _ _).trans h

theorem start_fresh (hfresh : ∀ id, s.next ≤ id → s.calls id = none) (id : ℕ)
    (hid : (start operation s).next ≤ id) : (start operation s).calls id = none := by
  rw [start_eq hpath] at hid ⊢
  have hlt : s.next < id := hid
  exact (Function.update_of_ne hlt.ne' _ _).trans (hfresh id hlt.le)

end Start

theorem Unloaded.start (h : Unloaded file hist s) (operation : Operation) :
    Unloaded file (⟨s, .call operation, start operation s⟩ :: hist) (start operation s) := by
  refine Unloaded.quiet ?_ quiet_call
  have heq := start_eq h.filePath operation
  refine
    { filePath := ?_, file_eq := ?_, records := ?_, pendingWrite := ?_, unmutated := h.unmutated
      unloaded := h.unloaded, begun := ?_, fresh := start_fresh h.filePath operation h.fresh
      calls := ?_, failed := ?_ }
  · rw [heq]
    exact h.filePath
  · rw [heq]
    exact h.file_eq
  · rw [heq]
    exact h.records
  · rw [heq]
    exact h.pendingWrite
  · rw [heq]
    simp
  · intro id call hcall
    rcases start_calls h.filePath operation hcall with ⟨rfl, rfl⟩ | ⟨_, hold⟩
    · cases hloaded : s.loaded with
      | false =>
        rw [if_pos (h.begun.mp hloaded)]
        exact .reading
      | true =>
        have hne : s.next ≠ 0 := by
          intro hzero
          rw [h.begun.mpr hzero] at hloaded
          cases hloaded
        rw [if_neg hne]
        rfl
    · exact h.calls id call hold
  · intro t ht id hfails
    obtain ⟨hpos, call, hcall, hstage⟩ := h.failed t ht id hfails
    exact ⟨hpos, call, start_calls_of_some h.filePath operation h.fresh hcall, hstage⟩

theorem Ready.start (h : Ready file hist s) {operation : Operation}
    (hundisturbed : operation.key ≠ none → s.pendingWrite.rejected = false) :
    Ready file (⟨s, .call operation, start operation s⟩ :: hist) (start operation s) := by
  refine Ready.quiet ?_ quiet_call
  have heq := start_eq h.filePath operation
  have hfile : (OpaqueCredentialStore.start operation s).file = s.file := by rw [heq]
  have hwrite : (OpaqueCredentialStore.start operation s).pendingWrite = s.pendingWrite := by rw [heq]
  refine
    { filePath := ?_, loaded := ?_, fresh := start_fresh h.filePath operation h.fresh, records := ?_
      saved := ?_, made := ?_, calls := ?_, failed := ?_ }
  · rw [heq]
    exact h.filePath
  · rw [heq]
  · rw [heq]
    exact h.records
  · obtain ⟨waiting, saved, hjournal, hcontents, hqueue, hdone⟩ := h.saved
    rw [hfile, hwrite]
    refine ⟨waiting, saved, hjournal, hcontents, hqueue, fun id call hcall hkey hstage => ?_⟩
    rcases start_calls h.filePath operation hcall with ⟨_, rfl⟩ | ⟨_, hold⟩
    · simp [h.loaded] at hstage
    · exact hdone id call hold hkey hstage
  · intro m hm
    obtain ⟨call, hcall, hmakes⟩ := h.made m hm
    exact ⟨call, start_calls_of_some h.filePath operation h.fresh hcall, hmakes⟩
  · intro id call hcall
    rcases start_calls h.filePath operation hcall with ⟨_, rfl⟩ | ⟨_, hold⟩
    · simp [h.loaded]
    · exact h.calls id call hold
  · intro t ht failed hfails
    obtain ⟨hrejected, hgets⟩ := h.failed t ht failed hfails
    rw [hwrite]
    refine ⟨hrejected, fun id call hle hcall => ?_⟩
    rcases start_calls h.filePath operation hcall with ⟨_, rfl⟩ | ⟨_, hold⟩
    · by_contra hkey
      rw [hundisturbed hkey] at hrejected
      cases hrejected
    · exact hgets id call hle hold

/-! ### Loading -/

theorem Unloaded.opening (h : Unloaded file hist s) {id : ℕ} {call : Call} (hcall : s.calls id = some call)
    (hstage : call.stage ≠ .loaded) : id = 0 ∧ Opening file call.stage := by
  have hcases := h.calls id call hcall
  split at hcases
  · next hid => exact ⟨hid, hcases⟩
  · exact absurd hcases hstage

theorem Unloaded.read (h : Unloaded file hist s) {id : ℕ} {operation : Operation} (fails : Bool)
    (hcall : s.calls id = some { operation, stage := .reading }) :
    Unloaded file (⟨s, .read id fails, s.setStage id (.read (readFile fails s.file))⟩ :: hist)
      (s.setStage id (.read (readFile fails s.file))) := by
  obtain ⟨rfl, _⟩ := h.opening hcall nofun
  refine
    { h with
      unloaded := ?_, fresh := fun id hid => setStages_none (h.fresh id hid), calls := ?_, failed := ?_ }
  · rw [once_cons]
    exact fun hor => hor.elim nofun h.unloaded
  · intro id call hafter
    rcases setStages_calls hafter with ⟨hid, before, hbefore, rfl⟩ | ⟨_, hold⟩
    · rw [if_pos (List.mem_singleton.mp hid)]
      cases fails with
      | false =>
        rw [h.file_eq]
        exact .read
      | true => exact .failed
    · exact h.calls id call hold
  · intro t ht failed hfails
    rcases List.mem_cons.mp ht with rfl | hmem
    · cases hfails with
      | read =>
        have hpos : 0 < s.next := by
          by_contra hzero
          rw [h.fresh 0 (not_lt.mp hzero)] at hcall
          cases hcall
        exact ⟨hpos, _, setStage_self hcall, .inl rfl⟩
    · obtain ⟨_, call, hsome, hstage⟩ := h.failed t hmem failed hfails
      rw [hcall, Option.some.injEq] at hsome
      subst hsome
      simp at hstage

theorem Unloaded.rejected (h : Unloaded file hist s) {id : ℕ} {now : JsString} {operation : Operation}
    {content : Except ReadFailure StoreFile} (hcall : s.calls id = some { operation, stage := .read content })
    (hcontent : finishLoad s.records content = none) :
    Unloaded file (⟨s, .resume id now, s.setStage id .rejected⟩ :: hist) (s.setStage id .rejected) := by
  obtain ⟨rfl, _⟩ := h.opening hcall nofun
  refine Unloaded.quiet ?_ (quiet_resume hcall nofun fun content' heq => ?_)
  · refine { h with fresh := fun id hid => setStages_none (h.fresh id hid), calls := ?_, failed := ?_ }
    · intro id call hafter
      rcases setStages_calls hafter with ⟨hid, before, hbefore, rfl⟩ | ⟨_, hold⟩
      · rw [if_pos (List.mem_singleton.mp hid)]
        exact .rejected
      · exact h.calls id call hold
    · intro t ht failed hfails
      obtain ⟨hpos, _⟩ := h.failed t ht failed hfails
      exact ⟨hpos, _, setStage_self hcall, .inr rfl⟩
  · rw [Stage.read.injEq] at heq
    rwa [← heq]

theorem finishLoad_readFile (hversion : ∀ f ∈ file, f.version = STORE_VERSION) :
    finishLoad (fun _ => none) (readFile false file) = some (contents file) := by
  cases file with
  | none => rfl
  | some f =>
    have hf : f.version = STORE_VERSION := hversion f rfl
    simp [finishLoad, readFile, hf, contents]

theorem Unloaded.ready (h : Unloaded file hist s) (hversion : ∀ f ∈ file, f.version = STORE_VERSION)
    {id : ℕ} {now : JsString} {operation : Operation} {content : Except ReadFailure StoreFile}
    {records : Records} (hcall : s.calls id = some { operation, stage := .read content })
    (hcontent : finishLoad s.records content = some records) :
    Ready file (⟨s, .resume id now, { s with records }.setStage id .loaded⟩ :: hist)
      ({ s with records }.setStage id .loaded) := by
  obtain ⟨rfl, hopening⟩ := h.opening hcall Stage.noConfusion
  have hread : content = readFile false file := by
    cases hopening with
    | read => rfl
    | failed => cases hcontent
  have hrecords : records = contents file := by
    rw [hread, h.records, finishLoad_readFile hversion, Option.some.injEq] at hcontent
    exact hcontent.symm
  have hjournal : journal (⟨s, .resume 0 now, { s with records }.setStage 0 .loaded⟩ :: hist) = [] := by
    rw [journal_cons, h.unmutated]
    simp [mutation, hcall]
  have hloaded : s.loaded = true := by
    by_contra hnot
    have hzero : s.next = 0 := h.begun.mp (Bool.eq_false_iff.mpr hnot)
    rw [h.fresh 0 hzero.le] at hcall
    cases hcall
  have hcalls : ∀ id call, ({ s with records }.setStage 0 Stage.loaded).calls id = some call →
      call.stage = .loaded := by
    intro id call hafter
    rcases setStages_calls hafter with ⟨_, before, _, rfl⟩ | ⟨hid, hold⟩
    · rfl
    · have hcases := h.calls id call hold
      rwa [if_neg (fun hzero => hid (List.mem_singleton.mpr hzero))] at hcases
  refine
    { filePath := h.filePath, loaded := hloaded, fresh := fun id hid => setStages_none (h.fresh id hid)
      records := ?_, saved := ⟨[], [], ?_, ?_, ?_, ?_⟩, made := ?_, calls := ?_, failed := ?_ }
  · rw [hjournal]
    exact hrecords
  · rw [hjournal]
    rfl
  · exact congrArg contents h.file_eq
  · simp [Store.setStage, h.pendingWrite, saves]
  · intro id call hafter _ hstage
    rw [hcalls id call hafter] at hstage
    simp at hstage
  · rw [hjournal]
    intro m hm
    cases hm
  · intro id call hafter
    rw [hcalls id call hafter]
    simp
  · intro t ht failed hfails
    rcases List.mem_cons.mp ht with rfl | hmem
    · cases hfails
    · obtain ⟨_, call, hsome, hstage⟩ := h.failed t hmem failed hfails
      rw [hcall, Option.some.injEq] at hsome
      subst hsome
      rw [hread] at hstage
      simp only [Stage.read.injEq, reduceCtorEq, or_false] at hstage
      rw [← hread] at hstage
      rw [hstage] at hcontent
      cases hcontent

/-! ### Answers and mutations -/

theorem Ready.resolve (h : Ready file hist s) {id : ℕ} {call : Call} (hcall : s.calls id = some call)
    (hstage : call.operation.key ≠ none → call.stage = .written) (value : Option CredentialRecord) :
    Ready file hist (s.setStage id (.resolved value)) := by
  refine
    { h with
      fresh := fun id hid => setStages_none (h.fresh id hid), saved := ?_, made := ?_, calls := ?_, failed := ?_ }
  · obtain ⟨waiting, saved, hjournal, hcontents, hqueue, hdone⟩ := h.saved
    refine ⟨waiting, saved, hjournal, hcontents, hqueue, fun id' call' hafter hkey hdone' => ?_⟩
    rcases setStages_calls hafter with ⟨hid, before, hbefore, rfl⟩ | ⟨_, hold⟩
    · obtain rfl := List.mem_singleton.mp hid
      obtain rfl := Option.some.inj (hcall.symm.trans hbefore)
      exact hdone _ _ hcall hkey (.inl (hstage hkey))
    · exact hdone id' call' hold hkey hdone'
  · intro m hm
    obtain ⟨call, hold, hmakes⟩ := h.made m hm
    obtain ⟨call', hafter, heq⟩ := setStages_operation hold
    exact ⟨call', hafter, heq ▸ hmakes⟩
  · intro id' call' hafter
    rcases setStages_calls hafter with ⟨_, before, hbefore, rfl⟩ | ⟨_, hold⟩
    · exact ⟨nofun, nofun, fun _ => .inr ⟨value, rfl⟩⟩
    · exact h.calls id' call' hold
  · intro t ht failed hfails
    obtain ⟨hrejected, hgets⟩ := h.failed t ht failed hfails
    refine ⟨hrejected, fun id' call' hle hafter => ?_⟩
    rcases setStages_calls hafter with ⟨_, before, hbefore, rfl⟩ | ⟨_, hold⟩
    · exact hgets id' before hle hbefore
    · exact hgets id' call' hle hold

section Persist
variable (id : ℕ) (s)

theorem persist_frame : (persist id s).filePath = s.filePath ∧ (persist id s).file = s.file ∧
    (persist id s).records = s.records ∧ (persist id s).loaded = s.loaded ∧ (persist id s).next = s.next ∧
    (persist id s).pendingWrite.rejected = s.pendingWrite.rejected := by
  unfold persist
  split_ifs
  · exact ⟨rfl, rfl, rfl, rfl, rfl, rfl⟩
  · exact ⟨rfl, rfl, rfl, rfl, rfl, rfl⟩
  · exact ⟨rfl, rfl, rfl, rfl, rfl, rfl⟩

variable {s}

theorem persist_queue (hpath : s.filePath = true) : (persist id s).pendingWrite.queue =
    s.pendingWrite.queue ++ if s.pendingWrite.rejected then [] else [(id, s.records)] := by
  cases hrejected : s.pendingWrite.rejected with
  | true => simp [persist, hpath, hrejected, Store.setStage]
  | false => simp [persist, hpath, hrejected, Store.setStage]

theorem persist_calls (hpath : s.filePath = true) : ∃ stage, (stage = .writing ∨ stage = .rejected) ∧
    (persist id s).calls = (s.setStage id stage).calls := by
  cases hrejected : s.pendingWrite.rejected with
  | true => exact ⟨.rejected, .inr rfl, by simp [persist, hpath, hrejected]⟩
  | false =>
    refine ⟨.writing, .inl rfl, ?_⟩
    simp only [persist, hpath, hrejected, reduceCtorEq, if_false]
    rfl

end Persist

theorem Ready.mutate (h : Ready file hist s) {id : ℕ} {now account : JsString} {operation : Operation}
    {value : Option CredentialRecord} (hcall : s.calls id = some { operation, stage := .loaded })
    (hkey : operation.key = some account)
    (hmakes : operation.Makes { call := id, key := account, value })
    (hs' : s' = persist id { s with records := Function.update s.records account value }) :
    Ready file (⟨s, .resume id now, s'⟩ :: hist) s' := by
  obtain ⟨hpath, hfile, hrecords, hloaded, hnext, hrejected⟩ :=
    persist_frame { s with records := Function.update s.records account value } id
  obtain ⟨stage, hstage, hafter⟩ :=
    persist_calls (s := { s with records := Function.update s.records account value }) id h.filePath
  have hqueue := persist_queue (s := { s with records := Function.update s.records account value }) id h.filePath
  rw [← hs'] at hpath hfile hrecords hloaded hnext hrejected hafter hqueue
  change s'.calls = (s.setStage id stage).calls at hafter
  have hjournal : journal (⟨s, .resume id now, s'⟩ :: hist) =
      { call := id, key := account, value } :: journal hist := by
    rw [journal_cons]
    simp [mutation, hcall, hkey, hrecords]
  refine
    { filePath := hpath.trans h.filePath, loaded := hloaded.trans h.loaded, fresh := ?_, records := ?_
      saved := ?_, made := ?_, calls := ?_, failed := ?_ }
  · intro id' hid
    rw [hafter]
    exact setStages_none (h.fresh id' (hnext ▸ hid))
  · rw [hjournal, applied_cons, ← h.records]
    exact hrecords
  · obtain ⟨waiting, saved, hold, hcontents, hwaiting, hdone⟩ := h.saved
    refine ⟨{ call := id, key := account, value } :: waiting, saved, ?_, ?_, ?_,
      fun id' call' hcall' hkey' hdone' => ?_⟩
    · rw [hjournal, hold]
      rfl
    · rw [hfile, hcontents]
    · rw [hqueue, hrejected]
      dsimp only
      rw [hwaiting]
      split
      · rfl
      · rw [saves, List.cons_append, applied_cons, ← hold, ← h.records]
    · rw [hafter] at hcall'
      rcases setStages_calls hcall' with ⟨_, before, _, rfl⟩ | ⟨_, hbefore⟩
      · rcases hstage with rfl | rfl
        · simp at hdone'
        · simp at hdone'
      · exact hdone id' call' hbefore hkey' hdone'
  · rw [hjournal, hafter]
    intro m hm
    rcases List.mem_cons.mp hm with rfl | hmem
    · exact ⟨_, setStage_self hcall, hmakes⟩
    · obtain ⟨call, hold, hmade⟩ := h.made m hmem
      obtain ⟨call', hsome, hoperation⟩ := setStages_operation hold
      exact ⟨call', hsome, hoperation ▸ hmade⟩
  · intro id' call' hcall'
    rw [hafter] at hcall'
    rcases setStages_calls hcall' with ⟨hid, before, hbefore, rfl⟩ | ⟨_, hbefore⟩
    · obtain rfl := List.mem_singleton.mp hid
      obtain rfl := Option.some.inj (hcall.symm.trans hbefore)
      rcases hstage with rfl | rfl
      · simp [hkey]
      · simp [hkey]
    · exact h.calls id' call' hbefore
  · intro t ht failed hfails
    rcases List.mem_cons.mp ht with rfl | hmem
    · cases hfails
    · obtain ⟨hreject, hgets⟩ := h.failed t hmem failed hfails
      refine ⟨hrejected.trans hreject, fun id' call' hle hcall' => ?_⟩
      rw [hafter] at hcall'
      rcases setStages_calls hcall' with ⟨_, before, hbefore, rfl⟩ | ⟨_, hbefore⟩
      · exact hgets id' before hle hbefore
      · exact hgets id' call' hle hbefore

/-! ### Writes -/

theorem Operation.Makes.key {m : Mutation JsString CredentialRecord ℕ} {operation : Operation}
    (h : operation.Makes m) : operation.key = some m.key := by
  cases operation with
  | get account => exact h.elim
  | put account registrationRecord => exact congrArg some h.1.symm
  | delete account => exact congrArg some h.1.symm

theorem Ready.head (h : Ready file hist s) {id : ℕ} {snapshot : Records} {rest : List (ℕ × Records)}
    (hhead : s.pendingWrite.queue = (id, snapshot) :: rest) :
    ∃ m newer saved, journal hist = newer ++ m :: saved ∧ m.call = id ∧
      contents s.file = applied (contents file) saved ∧ snapshot = applied (contents file) (m :: saved) ∧
      rest = saves (contents file) newer (m :: saved) ∧ s.pendingWrite.rejected = false ∧
      ∀ id call, s.calls id = some call → call.operation.key ≠ none →
        call.stage = .written ∨ (∃ value, call.stage = .resolved value) → ∃ m ∈ saved, m.call = id := by
  obtain ⟨waiting, saved, hjournal, hcontents, hqueue, hdone⟩ := h.saved
  cases hrejected : s.pendingWrite.rejected with
  | true =>
    rw [hrejected, hhead] at hqueue
    cases hqueue
  | false =>
    rw [hrejected, hhead] at hqueue
    obtain ⟨m, newer, rfl, hid, hsnapshot, hrest⟩ := saves_eq_cons hqueue.symm
    refine ⟨m, newer, saved, ?_, hid, hcontents, hsnapshot, hrest, rfl, hdone⟩
    rw [hjournal, List.append_assoc]
    rfl

theorem Ready.queued (h : Ready file hist s) {id : ℕ} (hid : id ∈ s.pendingWrite.queue.map Prod.fst) {call : Call}
    (hcall : s.calls id = some call) : call.operation.key ≠ none := by
  obtain ⟨waiting, saved, hjournal, _, hqueue, _⟩ := h.saved
  obtain ⟨⟨_, snapshot⟩, hmem, rfl⟩ := List.mem_map.mp hid
  rw [hqueue] at hmem
  split at hmem
  · cases hmem
  · obtain ⟨m, hm, rfl⟩ := mem_saves hmem
    obtain ⟨call', hcall', hmakes⟩ := h.made m (hjournal ▸ List.mem_append_left _ hm)
    obtain rfl := Option.some.inj (hcall.symm.trans hcall')
    rw [hmakes.key]
    exact nofun

theorem Ready.written (h : Ready file hist s) {id : ℕ} {snapshot : Records} {rest : List (ℕ × Records)}
    (hhead : s.pendingWrite.queue = (id, snapshot) :: rest)
    (hs' : s' = { s with
      file := some { version := STORE_VERSION, records := snapshot }
      pendingWrite := { s.pendingWrite with queue := rest } }.setStage id .written) :
    Ready file (⟨s, .write false, s'⟩ :: hist) s' := by
  refine Ready.quiet ?_ quiet_write
  obtain ⟨m, newer, saved, hjournal, hid, _, hsnapshot, hrest, hrejected, hdone⟩ := h.head hhead
  subst hs'
  refine
    { h with
      fresh := fun id hid => setStages_none (h.fresh id hid), saved := ?_, made := ?_, calls := ?_, failed := ?_ }
  · refine ⟨newer, m :: saved, hjournal, hsnapshot, ?_, fun id' call' hcall hkey hstage => ?_⟩
    · rw [hrest]
      simp [Store.setStage, hrejected]
    · rcases setStages_calls hcall with ⟨hmem, _⟩ | ⟨_, hold⟩
      · obtain rfl := List.mem_singleton.mp hmem
        exact ⟨m, List.mem_cons_self .., hid⟩
      · obtain ⟨m', hm', hcall'⟩ := hdone id' call' hold hkey hstage
        exact ⟨m', List.mem_cons_of_mem _ hm', hcall'⟩
  · intro m' hm'
    obtain ⟨call, hold, hmakes⟩ := h.made m' hm'
    obtain ⟨call', hcall, heq⟩ := setStages_operation hold
    exact ⟨call', hcall, heq ▸ hmakes⟩
  · intro id' call' hcall
    rcases setStages_calls hcall with ⟨hmem, before, hbefore, rfl⟩ | ⟨_, hold⟩
    · have hqueued : id' ∈ s.pendingWrite.queue.map Prod.fst := by
        rw [hhead, List.mem_singleton.mp hmem]
        exact List.mem_cons_self ..
      have hkey : before.operation.key ≠ none := h.queued hqueued hbefore
      exact ⟨Stage.noConfusion, fun _ => Stage.noConfusion, fun hget => absurd hget hkey⟩
    · exact h.calls id' call' hold
  · intro t ht failed hfails
    obtain ⟨hreject, _⟩ := h.failed t ht failed hfails
    rw [hrejected] at hreject
    cases hreject

theorem Ready.write_failed (h : Ready file hist s) {id : ℕ} {snapshot : Records} {rest : List (ℕ × Records)}
    (hhead : s.pendingWrite.queue = (id, snapshot) :: rest)
    (hs' : s' = { s with pendingWrite := { queue := [], rejected := true } }.setStages
      (id :: rest.map Prod.fst) .rejected) :
    Ready file (⟨s, .write true, s'⟩ :: hist) s' := by
  obtain ⟨_, _, _, _, _, _, _, _, hrejected, _⟩ := h.head hhead
  have hjournal : journal (⟨s, .write true, s'⟩ :: hist) = journal hist := rfl
  subst hs'
  refine
    { filePath := h.filePath, loaded := h.loaded, fresh := fun id hid => setStages_none (h.fresh id hid)
      records := ?_, saved := ?_, made := ?_, calls := ?_, failed := ?_ }
  · rw [hjournal]
    exact h.records
  · obtain ⟨waiting, saved, hold, hcontents, _, hdone⟩ := h.saved
    refine ⟨waiting, saved, hjournal.trans hold, hcontents, rfl, fun id' call' hcall hkey hstage => ?_⟩
    rcases setStages_calls hcall with ⟨_, before, _, rfl⟩ | ⟨_, hbefore⟩
    · simp at hstage
    · exact hdone id' call' hbefore hkey hstage
  · rw [hjournal]
    intro m hm
    obtain ⟨call, hold, hmakes⟩ := h.made m hm
    obtain ⟨call', hcall, heq⟩ := setStages_operation hold
    exact ⟨call', hcall, heq ▸ hmakes⟩
  · intro id' call' hcall
    rcases setStages_calls hcall with ⟨hmem, before, hbefore, rfl⟩ | ⟨_, hold⟩
    · have hqueued : id' ∈ s.pendingWrite.queue.map Prod.fst := by
        rw [hhead]
        exact hmem
      have hkey : before.operation.key ≠ none := h.queued hqueued hbefore
      exact ⟨nofun, nofun, fun hget => absurd hget hkey⟩
    · exact h.calls id' call' hold
  · intro t ht failed hfails
    rcases List.mem_cons.mp ht with rfl | hmem
    · refine ⟨rfl, fun id' call' hle hcall => ?_⟩
      have hnone : s.calls id' = none := h.fresh id' hle
      rcases setStages_calls hcall with ⟨_, before, hbefore, _⟩ | ⟨_, hold⟩
      · exact absurd (hnone.symm.trans hbefore) nofun
      · exact absurd (hnone.symm.trans hold) nofun
    · obtain ⟨hreject, _⟩ := h.failed t hmem failed hfails
      rw [hrejected] at hreject
      cases hreject

/-! ### Steps -/

theorem Unloaded.next (h : Unloaded file hist s) (hversion : ∀ f ∈ file, f.version = STORE_VERSION)
    (hundisturbed : Undisturbed hist s e) :
    Unloaded file (⟨s, e, exec s e⟩ :: hist) (exec s e) ∨
      Once Loads (⟨s, e, exec s e⟩ :: hist) ∧ Ready file (⟨s, e, exec s e⟩ :: hist) (exec s e) := by
  cases e with
  | call operation => exact .inl (h.start operation)
  | read id fails =>
    left
    simp only [exec]
    split
    · next operation hcall => exact h.read fails hcall
    · next hother =>
      refine h.quiet ⟨rfl, ?_, nofun⟩
      rintro _ ⟨hcall⟩
      exact hother _ hcall
  | resume id now =>
    simp only [exec]
    split
    · next call hcall =>
      obtain ⟨operation, stage⟩ := call
      have hcases := h.calls id _ hcall
      simp only [Undisturbed, hcall] at hundisturbed
      cases stage with
      | read content =>
        cases hcontent : finishLoad s.records content with
        | none =>
          have heq : advance id now { operation, stage := .read content } s = s.setStage id .rejected := by
            simp [advance, hcontent]
          rw [heq]
          exact .inl (h.rejected hcall hcontent)
        | some records =>
          have heq : advance id now { operation, stage := .read content } s =
              { s with records }.setStage id .loaded := by
            simp [advance, hcontent]
          rw [heq]
          exact .inr ⟨once_cons.mpr (.inl ⟨hcall, hcontent⟩), h.ready hversion hcall hcontent⟩
      | loaded => exact absurd hundisturbed.1 h.unloaded
      | reading | writing | resolved | rejected => exact .inl (h.quiet (quiet_resume hcall nofun nofun))
      | written =>
        split at hcases
        · cases hcases
        · cases hcases
    · next hnone =>
      left
      refine h.quiet ⟨?_, nofun, ?_⟩
      · simp [mutation, hnone]
      · rintro ⟨hcall, _⟩
        rw [hnone] at hcall
        cases hcall
  | write fails =>
    left
    have hqueue : s.pendingWrite.queue = [] := by rw [h.pendingWrite]
    have heq : exec s (.write fails) = s := by simp [exec, finishWrite, hqueue]
    rw [heq]
    refine h.quiet ⟨rfl, ?_, nofun⟩
    intro id hfails
    cases hfails with
    | write hhead =>
      rw [hqueue] at hhead
      cases hhead

theorem Ready.next (h : Ready file hist s) (hundisturbed : Undisturbed hist s e) :
    Ready file (⟨s, e, exec s e⟩ :: hist) (exec s e) := by
  cases e with
  | call operation => exact h.start hundisturbed
  | read id fails =>
    simp only [exec]
    split
    · next operation hcall => exact absurd rfl (h.calls id _ hcall).1
    · next hother =>
      refine h.quiet ⟨rfl, ?_, nofun⟩
      rintro _ ⟨hcall⟩
      exact hother _ hcall
  | resume id now =>
    simp only [exec]
    split
    · next call hcall =>
      obtain ⟨operation, stage⟩ := call
      cases stage with
      | read content => exact absurd rfl ((h.calls id _ hcall).2.1 content)
      | loaded =>
        cases operation with
        | get account =>
          exact (h.resolve hcall (absurd rfl) _).quiet (quiet_resume hcall (fun _ => rfl) nofun)
        | put account registrationRecord => exact h.mutate hcall rfl ⟨rfl, rfl⟩ rfl
        | delete account => exact h.mutate hcall rfl ⟨rfl, rfl⟩ rfl
      | written => exact (h.resolve hcall (fun _ => rfl) _).quiet (quiet_resume hcall nofun nofun)
      | reading | writing | resolved | rejected => exact h.quiet (quiet_resume hcall nofun nofun)
    · next hnone =>
      refine h.quiet ⟨?_, nofun, ?_⟩
      · simp [mutation, hnone]
      · rintro ⟨hcall, _⟩
        rw [hnone] at hcall
        cases hcall
  | write fails =>
    simp only [exec, finishWrite]
    split
    · next hempty =>
      refine h.quiet ⟨rfl, ?_, nofun⟩
      intro id hfails
      cases hfails with
      | write hhead =>
        rw [hempty] at hhead
        cases hhead
    · next id snapshot rest hhead =>
      cases fails with
      | true => exact h.write_failed hhead rfl
      | false => exact h.written hhead rfl

end ChainGuard.OffChain.OpaqueCredentialStore
