import Apim.Lib.Table
import Apim.Lib.Trace
import Apim.ControlPlane.Topics

/-!
# Edits of a topic that overlap

What is to hold of every run: an edit leaves each column its body does not name as it was, the
partitions only grow, a changed definition is the next version, nobody has access to a deleted
topic, and the API of a topic that no request is about was last configured for what the topic says
(`Lawful`). An edit writes every column from the row it read before its body, so this holds of runs
in which an edit that goes on finds the row as it read it and its API as it left it, and a request
for access that is accepted finds its topic not deleted (`Current`): `lawful_of_current`.
-/

namespace Apim.KafkaTopics
open Guard Trace Table
open ControlPlane (User can)
open Groups (trimmed)

/-! ### What is to hold -/

def PatchBody.nothing : PatchBody :=
  ⟨none, none, none, none, none, none, none, none, none, none, none, none, none, none⟩

def Portal.body (s : Portal) (id : Nat) : Event → PatchBody
  | .resumePatch index body _ =>
    match s.suspended[index]? with
    | some (.patch _ topic) => if topic.id = id then body else .nothing
    | _ => .nothing
  | .resumeWrite index =>
    match s.suspended[index]? with
    | some (.queued topic body _ _ _) => if topic.id = id then body else .nothing
    | _ => .nothing
  | _ => .nothing

structure Contract.Keeps (body : PatchBody) (old next : Contract) : Prop where
  schemaType : body.schemaType = none → next.schemaType = old.schemaType
  definition : body.text = none → (∀ type, body.schemaType = some type → orNull type = old.schemaType) →
    next.schemaJson = old.schemaJson ∧ next.schemaText = old.schemaText
  compatibility : body.compatibility = none → next.compatibility = old.compatibility
  certificateId : body.certificateId = none → next.certificateId = old.certificateId

structure Keeps (body : PatchBody) (t t' : Topic) : Prop where
  id : t'.id = t.id
  applicationId : t'.applicationId = t.applicationId
  environment : t'.environment = t.environment
  name : t'.name = t.name
  domain : t'.domain = t.domain
  subdomain : t'.subdomain = t.subdomain
  replication : t'.replication = t.replication
  description : body.description = none → t'.description = t.description
  partitions : body.partitions = none → t'.partitions = t.partitions
  retentionDays : body.retentionDays = none → t'.retentionDays = t.retentionDays
  minInsyncReplicas : body.minInsyncReplicas = none → t'.minInsyncReplicas = t.minInsyncReplicas
  displayName : body.displayName = none → t'.displayName = t.displayName
  wikiLink : body.wikiLink = none → t'.wikiLink = t.wikiLink
  contract : Contract.Keeps body t.toContract t'.toContract

def Topic.versionOf (t : Topic) (next : Contract) : Nat :=
  if next.differs t.toContract && next.hasSchema then t.schemaVersion + 1 else t.schemaVersion

structure Evolves (body : PatchBody) (t t' : Topic) : Prop where
  keeps : Keeps body t t'
  partitions : t.partitions ≤ t'.partitions
  version : t'.schemaVersion = t.versionOf t'.toContract

structure Operation.Serves (op : Operation) (contract : Contract) : Prop where
  definition : contract.schemaJson = some op.definition.schema
  certificate : contract.certificateId = op.certificate

def Agrees (s : Portal) (t : Topic) : Prop :=
  ∀ api op, s.published t = some (api, op) → op.Serves t.toContract

def Undeleted (s : Portal) : Prop :=
  ∀ a ∈ s.access, a.state.live = true → ∀ t ∈ s.topics, t.id = a.topicId → t.state ≠ .deleted

def Edited (s : Portal) (event : Event) (s' : Portal) : Prop :=
  ∀ t ∈ s.topics, ∃ t' ∈ s'.topics, Evolves (s.body t.id event) t t'

structure Lawful (s : Portal) (event : Event) (s' : Portal) : Prop where
  edited : Edited s event s'
  undeleted : Undeleted s'
  agrees : ∀ t ∈ s'.topics, (∀ h ∈ s'.suspended, h.topic.id ≠ t.id) → Agrees s' t

/-! ### When it holds -/

def Unchanged (s : Portal) (copy : Topic) : Prop :=
  ∀ row ∈ s.topics, row.id = copy.id → { row with state := copy.state } = copy

def Portal.writes (s : Portal) (copy : Topic) (next : Contract) : Bool :=
  (s.published copy).isNone || next.servesApi && !next.moves copy.toContract

/-- Where a handler that has read its topic writes, the topic is as it has read it. -/
def Current (c : Checks) (s : Portal) : Event → Portal → Prop
  | .resumePatch index body now, _ =>
    ∀ user copy, s.suspended[index]? = some (.patch user copy) →
      ∀ next, readPatch c s copy body now = .ok next → s.writes copy next = true → Unchanged s copy
  | .resumeConfigure index accepted, _ =>
    accepted = true → ∀ copy body next api previous,
      s.suspended[index]? = some (.configuring copy body next api previous) →
        Unchanged s copy ∧ s.snapshot api copy.environment = some previous
  | .resumeWrite index, _ =>
    ∀ copy body next api operation,
      s.suspended[index]? = some (.queued copy body next api operation) →
        Unchanged s copy ∧ ∀ op, s.snapshot api copy.environment = some op → op.id = operation
  | .resumeSubscribe index body, _ =>
    ∀ user copy, s.suspended[index]? = some (.subscribe user copy) →
      assertSubscribe c s user copy body = .ok () →
        ∀ row ∈ s.topics, row.id = copy.id → row.state ≠ .deleted
  | _, _ => True

/-! ### What is kept along a run -/

structure Accepted (body : PatchBody) (copy : Topic) (next : Contract) : Prop where
  partitions : ∀ n, body.partitions = some n → copy.partitions ≤ n
  contract : Contract.Keeps body copy.toContract next

def Overtaken (s : Portal) (t : Topic) (last : Nat) : Prop :=
  ∃ copy body next api operation, .queued copy body next api operation ∈ s.suspended ∧
    copy.id = t.id ∧ operation ≠ last

def Settling (s : Portal) (t : Topic) : Prop :=
  ∀ api op, s.published t = some (api, op) → Overtaken s t op.id ∨
    (∀ copy body next api' n, .queued copy body next api' n ∈ s.suspended → copy.id = t.id →
      op.Serves next) ∧
    ((∃ copy body next api' n, .queued copy body next api' n ∈ s.suspended ∧ copy.id = t.id) ∨
      op.Serves t.toContract)

def Knows (s : Portal) : Suspended → Prop
  | .configuring copy body next api _ =>
    Accepted body copy next ∧ next.servesApi = true ∧ (s.topicApi copy).map (·.id) = some api
  | .queued copy body next api operation =>
    Accepted body copy next ∧ (s.topicApi copy).map (·.id) = some api ∧ operation < s.next
  | _ => True

structure Sound (s : Portal) : Prop where
  topics : Numbered (s.topics.map (·.id)) s.next
  apis : (s.apis.map (·.id)).Nodup
  operations : Numbered (s.operations.map (·.id)) s.next
  named : ∀ t ∈ s.topics, ∀ t' ∈ s.topics, t.environment = t'.environment → t.name = t'.name → t = t'
  homes : ∀ op ∈ s.operations, ∀ api ∈ s.apis, api.id = op.resourceId →
    ∃ t ∈ s.topics, t.environment = op.environment ∧ t.name = api.kafkaTopic
  undeleted : Undeleted s
  read : ∀ h ∈ s.suspended, ∃ t ∈ s.topics, t.id = h.topic.id
  knows : ∀ h ∈ s.suspended, Knows s h
  settling : ∀ t ∈ s.topics, Settling s t

variable {body : PatchBody} {copy topic t : Topic} {next : Contract} {c : Checks} {s' : Portal}
  {api : Nat} {handler : Suspended} {chain : List String} {user : User} {event : Event}

section
variable {s : Portal}

/-! ### Rows and their columns -/

theorem Contract.Keeps.refl (body : PatchBody) (contract : Contract) :
    Contract.Keeps body contract contract :=
  ⟨fun _ => rfl, fun _ _ => ⟨rfl, rfl⟩, fun _ => rfl, fun _ => rfl⟩

theorem Contract.differs_self (contract : Contract) : contract.differs contract = false := by
  simp [Contract.differs]

theorem Evolves.state (body : PatchBody) (t : Topic) (state : TopicState) :
    Evolves body t { t with state := state } := by
  refine ⟨⟨rfl, rfl, rfl, rfl, rfl, rfl, rfl, fun _ => rfl, fun _ => rfl, fun _ => rfl, fun _ => rfl,
    fun _ => rfl, fun _ => rfl, .refl body t.toContract⟩, Int.le_refl _, ?_⟩
  have hsame : ({ t with state := state } : Topic).toContract = t.toContract := rfl
  rw [hsame, Topic.versionOf, Contract.differs_self]
  rfl

theorem Evolves.refl (body : PatchBody) (t : Topic) : Evolves body t t := Evolves.state body t t.state

theorem evolves_patched {row : Topic} (h : Accepted body copy next)
    (hrow : { row with state := copy.state } = copy) :
    Evolves body row (row.patched copy body next) := by
  obtain ⟨state, rfl⟩ : ∃ state, row = { copy with state := state } :=
    ⟨row.state, by rw [← hrow]⟩
  refine ⟨⟨rfl, rfl, rfl, rfl, rfl, rfl, rfl, ?_, ?_, ?_, ?_, ?_, ?_, h.contract⟩, ?_, rfl⟩
  · intro hnone
    simp [Topic.patched, hnone]
  · intro hnone
    simp [Topic.patched, hnone]
  · intro hnone
    simp [Topic.patched, hnone]
  · intro hnone
    simp [Topic.patched, hnone]
  · intro hnone
    simp [Topic.patched, hnone]
  · intro hnone
    simp [Topic.patched, hnone]
  · cases hbody : body.partitions with
    | none => simp [Topic.patched, hbody]
    | some n =>
      have hgrows := h.partitions n hbody
      simpa [Topic.patched, hbody] using hgrows

/-! ### What an accepted edit has been checked for -/

theorem readDefinition_keeps {schemaType : Option String} {typeChanged : Bool}
    {text : Option (Option String)} {columns : Option String × Option String}
    (hok : readDefinition c topic schemaType typeChanged text = .ok columns) (htext : text = none)
    (hsame : typeChanged = false) : columns = (topic.schemaJson, topic.schemaText) := by
  subst htext hsame
  simp only [readDefinition, Bool.false_eq_true, if_false, Except.ok.injEq] at hok
  exact hok.symm

theorem keeps_of_readContract {now : Nat} (hok : readContract c s topic body now = .ok next) :
    Contract.Keeps body topic.toContract next := by
  simp only [readContract, bind_eq_ok, ensure_eq_ok, pure_eq_ok, Prod.exists] at hok
  obtain ⟨-, -, schemaJson, schemaText, hdefinition, -, -, -, -, rfl⟩ := hok
  refine ⟨fun hnone => ?_, fun htext htype => ?_, fun hnone => ?_, fun hnone => ?_⟩
  · simp [hnone]
  · have hkept : ((body.schemaType.map orNull).getD topic.schemaType != topic.schemaType) = false := by
      cases hbody : body.schemaType with
      | none => simp
      | some type => simp [htype type hbody]
    have hcolumns := readDefinition_keeps hdefinition htext hkept
    exact ⟨congrArg Prod.fst hcolumns, congrArg Prod.snd hcolumns⟩
  · simp [hnone]
  · simp [hnone]

theorem accepted_of_readPatch {now : Nat} (hok : readPatch c s topic body now = .ok next) :
    Accepted body topic next := by
  simp only [readPatch, bind_eq_ok, ensure_eq_ok, each_eq_ok] at hok
  obtain ⟨-, -, -, hpartitions, -, -, -, -, -, -, -, -, -, -, -, -, -, -, -, -, hcontract⟩ := hok
  refine ⟨fun n hn => ?_, keeps_of_readContract hcontract⟩
  obtain ⟨-, -, hle⟩ := hpartitions n (by simp [hn])
  simpa using hle

/-! ### The API of a topic -/

theorem published_eq {t' : Topic} (hapis : s'.apis = s.apis)
    (hoperations : s'.operations = s.operations) (happ : t'.applicationId = t.applicationId)
    (henv : t'.environment = t.environment) (hname : t'.name = t.name) :
    s'.published t' = s.published t := by
  simp only [Portal.published, Portal.topicApi, Portal.snapshot, hapis, hoperations, happ, henv, hname]

theorem published_eq_some {op : Operation} :
    s.published t = some (api, op) ↔
      (s.topicApi t).map (·.id) = some api ∧ s.snapshot api t.environment = some op := by
  simp only [Portal.published, Option.bind_eq_some_iff, Option.map_eq_some_iff, Prod.mk.injEq]
  constructor
  · rintro ⟨found, hfound, found', hsnapshot, rfl, rfl⟩
    exact ⟨⟨found, hfound, rfl⟩, hsnapshot⟩
  · rintro ⟨⟨found, hfound, rfl⟩, hsnapshot⟩
    exact ⟨found, hfound, op, hsnapshot, rfl, rfl⟩

theorem published_ext (hapis : s'.apis = s.apis)
    (hsnapshot : ∀ api, (s.topicApi t).map (·.id) = some api →
      s'.snapshot api t.environment = s.snapshot api t.environment) :
    s'.published t = s.published t := by
  have happ : s'.topicApi t = s.topicApi t := by simp only [Portal.topicApi, hapis]
  unfold Portal.published
  rw [happ]
  cases hfound : s.topicApi t with
  | none => rfl
  | some api =>
    rw [Option.bind_some, Option.bind_some, hsnapshot api.id (by rw [hfound]; rfl)]

theorem of_topicApi {api : TopicApi} (h : s.topicApi t = some api) :
    api ∈ s.apis ∧ api.kafkaTopic = t.name := by
  have hfound := List.find?_some h
  simp only [Bool.and_eq_true, beq_iff_eq] at hfound
  exact ⟨List.mem_of_find?_eq_some h, hfound.1.2⟩

theorem of_snapshot {environment : String} {op : Operation}
    (h : s.snapshot api environment = some op) :
    op ∈ s.operations ∧ op.resourceId = api ∧ op.environment = environment := by
  have hmem := List.mem_of_getLast? h
  simpa only [List.mem_filter, Bool.and_eq_true, beq_iff_eq] using hmem

theorem snapshot_append {op : Operation} (h : s'.operations = s.operations ++ [op]) (api : Nat)
    (environment : String) :
    s'.snapshot api environment =
      if op.resourceId = api ∧ op.environment = environment then some op
      else s.snapshot api environment := by
  unfold Portal.snapshot
  rw [h, List.filter_append]
  split
  · rename_i hsame
    simp [hsame]
  · rename_i hother
    have hdrop : [op].filter (fun op => op.resourceId == api && op.environment == environment) = [] := by
      simpa using hother
    rw [hdrop, List.append_nil]

/-! ### Handlers that wait -/

theorem mem_resumed {index : Nat} {g h : Suspended} (hg : s.suspended[index]? = some g)
    (hmem : h ∈ s.suspended) (hne : h ≠ g) : h ∈ (s.resumed index).suspended := by
  obtain ⟨i, hi⟩ := List.mem_iff_getElem?.mp hmem
  refine List.mem_eraseIdx_iff_getElem?.mpr ⟨i, ?_, hi⟩
  rintro rfl
  rw [hg] at hi
  exact hne (Option.some.inj hi).symm

theorem mem_of_mem_resumed {index : Nat} {h : Suspended} (hmem : h ∈ (s.resumed index).suspended) :
    h ∈ s.suspended :=
  List.mem_of_mem_eraseIdx hmem

theorem Settling.same {t' : Topic} (h : Settling s t)
    (hpublished : s'.published t' = s.published t) (hid : t'.id = t.id)
    (hserves : ∀ op : Operation, op.Serves t.toContract → op.Serves t'.toContract)
    (hqueued : ∀ copy body next api n, copy.id = t.id →
      (.queued copy body next api n ∈ s'.suspended ↔ .queued copy body next api n ∈ s.suspended)) :
    Settling s' t' := by
  intro api op hop
  rw [hpublished] at hop
  rcases h api op hop with ⟨copy, body, next, api', n, hmem, hcopy, hne⟩ | ⟨hall, hsome⟩
  · have hkept := (hqueued copy body next api' n hcopy).mpr hmem
    exact .inl ⟨copy, body, next, api', n, hkept, hcopy.trans hid.symm, hne⟩
  · refine .inr ⟨fun copy body next api' n hmem hcopy => ?_, ?_⟩
    · have hcopy := hcopy.trans hid
      exact hall copy body next api' n ((hqueued copy body next api' n hcopy).mp hmem) hcopy
    · rcases hsome with ⟨copy, body, next, api', n, hmem, hcopy⟩ | hagrees
      · have hkept := (hqueued copy body next api' n hcopy).mpr hmem
        exact .inl ⟨copy, body, next, api', n, hkept, hcopy.trans hid.symm⟩
      · exact .inr (hserves op hagrees)

theorem agrees_of_settling (h : Settling s t)
    (hquiet : ∀ handler ∈ s.suspended, handler.topic.id ≠ t.id) : Agrees s t := by
  intro api op hop
  rcases h api op hop with ⟨copy, body, next, api', n, hmem, hcopy, -⟩ | ⟨-, hsome⟩
  · exact absurd hcopy (hquiet _ hmem)
  · rcases hsome with ⟨copy, body, next, api', n, hmem, hcopy⟩ | hserves
    · exact absurd hcopy (hquiet _ hmem)
    · exact hserves

/-! ### Steps that leave the operations -/

structure SameRow (t t' : Topic) : Prop where
  id : t'.id = t.id
  applicationId : t'.applicationId = t.applicationId
  environment : t'.environment = t.environment
  name : t'.name = t.name

theorem Sound.edited (h : Sound s) (f : Topic → Topic) (hf : ∀ t ∈ s.topics, SameRow t (f t))
    (htopics : s'.topics = s.topics.map f) (hapis : s'.apis = s.apis)
    (hoperations : s'.operations = s.operations) (hnext : s.next ≤ s'.next)
    (hundeleted : Undeleted s') (hsuspended : s'.suspended ⊆ s.suspended)
    (hsettling : ∀ t ∈ s.topics, Settling s' (f t)) : Sound s' := by
  have hids : (s.topics.map f).map (·.id) = s.topics.map (·.id) :=
    map_key_map f fun t ht => (hf t ht).id
  refine ⟨?_, ?_, ?_, ?_, ?_, hundeleted, ?_, ?_, ?_⟩
  · rw [htopics, hids]
    exact h.topics.mono hnext
  · rw [hapis]
    exact h.apis
  · rw [hoperations]
    exact h.operations.mono hnext
  · rw [htopics]
    intro t ht t' ht' henv hname
    obtain ⟨old, hold, rfl⟩ := List.mem_map.mp ht
    obtain ⟨old', hold', rfl⟩ := List.mem_map.mp ht'
    rw [(hf old hold).environment, (hf old' hold').environment] at henv
    rw [(hf old hold).name, (hf old' hold').name] at hname
    rw [h.named old hold old' hold' henv hname]
  · rw [hoperations, hapis, htopics]
    intro op hop api hapi hid
    obtain ⟨t, ht, henv, hname⟩ := h.homes op hop api hapi hid
    exact ⟨f t, List.mem_map_of_mem ht, (hf t ht).environment.trans henv, (hf t ht).name.trans hname⟩
  · rw [htopics]
    intro handler hmem
    obtain ⟨t, ht, hid⟩ := h.read handler (hsuspended hmem)
    exact ⟨f t, List.mem_map_of_mem ht, (hf t ht).id.trans hid⟩
  · intro handler hmem
    have hknows := h.knows handler (hsuspended hmem)
    have hapi : ∀ copy, s'.topicApi copy = s.topicApi copy := fun copy => by
      simp only [Portal.topicApi, hapis]
    cases handler with
    | patch user copy => trivial
    | subscribe user copy => trivial
    | configuring copy body next api previous =>
      simpa only [Knows, hapi] using hknows
    | queued copy body next api operation =>
      simp only [Knows, hapi] at hknows ⊢
      exact ⟨hknows.1, hknows.2.1, Nat.lt_of_lt_of_le hknows.2.2 hnext⟩
  · rw [htopics]
    intro t ht
    obtain ⟨old, hold, rfl⟩ := List.mem_map.mp ht
    exact hsettling old hold

theorem Sound.states (h : Sound s) (state : Topic → TopicState)
    (htopics : s'.topics = s.topics.map fun t => { t with state := state t })
    (hapis : s'.apis = s.apis) (hoperations : s'.operations = s.operations)
    (hnext : s.next ≤ s'.next) (hundeleted : Undeleted s') (hsuspended : s'.suspended = s.suspended) :
    Sound s' := by
  refine h.edited (fun t => { t with state := state t }) (fun t _ => ⟨rfl, rfl, rfl, rfl⟩) htopics
    hapis hoperations hnext hundeleted (hsuspended ▸ List.Subset.refl _) fun t ht => ?_
  refine (h.settling t ht).same (published_eq hapis hoperations rfl rfl rfl) rfl (fun _ h => h) ?_
  rw [hsuspended]
  exact fun _ _ _ _ _ _ => Iff.rfl

theorem sound_resumed {index : Nat} {g : Suspended} (h : Sound s)
    (hg : s.suspended[index]? = some g)
    (hnot : ∀ copy body next api n, g ≠ .queued copy body next api n) : Sound (s.resumed index) := by
  refine h.edited id (fun t _ => ⟨rfl, rfl, rfl, rfl⟩) (List.map_id _).symm rfl rfl (Nat.le_refl _)
    h.undeleted (fun _ => mem_of_mem_resumed) fun t ht => ?_
  refine (h.settling t ht).same rfl rfl (fun _ h => h) fun copy body next api n _ => ?_
  exact ⟨mem_of_mem_resumed, fun hmem => mem_resumed hg hmem (hnot copy body next api n).symm⟩

theorem sound_append (h : Sound s) (hread : ∃ t ∈ s.topics, t.id = handler.topic.id)
    (hknows : Knows s handler)
    (hnot : ∀ copy body next api n, handler ≠ .queued copy body next api n) :
    Sound { s with suspended := s.suspended ++ [handler] } := by
  refine ⟨h.topics, h.apis, h.operations, h.named, h.homes, h.undeleted, ?_, ?_, fun t ht => ?_⟩
  · intro g hg
    rcases List.mem_append.mp hg with hold | hnew
    · exact h.read g hold
    · rw [List.mem_singleton.mp hnew]
      exact hread
  · intro g hg
    rcases List.mem_append.mp hg with hold | hnew
    · have hkept := h.knows g hold
      cases g with
      | patch user copy => trivial
      | subscribe user copy => trivial
      | configuring copy body next api previous => exact hkept
      | queued copy body next api operation => exact hkept
    · rw [List.mem_singleton.mp hnew]
      cases handler with
      | patch user copy => trivial
      | subscribe user copy => trivial
      | configuring copy body next api previous => exact hknows
      | queued copy body next api operation => exact hknows
  · refine (h.settling t ht).same rfl rfl (fun _ h => h) fun copy body next api n _ => ?_
    constructor
    · intro hmem
      rcases List.mem_append.mp hmem with hold | hnew
      · exact hold
      · exact absurd (List.mem_singleton.mp hnew).symm (hnot copy body next api n)
    · exact fun hmem => List.mem_append_left _ hmem

/-! ### Configuring the API -/

theorem Unchanged.sameRow {row : Topic} (h : Unchanged s copy) (hrow : row ∈ s.topics)
    (hid : row.id = copy.id) : SameRow copy row ∧ row.toContract = copy.toContract := by
  have hsame := h row hrow hid
  rw [← hsame]
  exact ⟨⟨rfl, rfl, rfl, rfl⟩, rfl⟩

theorem Unchanged.published {row : Topic} (h : Unchanged s copy) (hrow : row ∈ s.topics)
    (hid : row.id = copy.id) : s.published row = s.published copy := by
  obtain ⟨hsame, -⟩ := h.sameRow hrow hid
  exact published_eq rfl rfl hsame.applicationId hsame.environment hsame.name

theorem topicApi_eq {row : Topic} (h : SameRow copy row) : s.topicApi row = s.topicApi copy := by
  simp only [Portal.topicApi, h.applicationId, h.name]

theorem topic_eq_of_home (h : Sound s) {row : Topic} (ht : t ∈ s.topics) (hrow : row ∈ s.topics)
    (hsame : SameRow copy row) (happ : (s.topicApi copy).map (·.id) = some api)
    (happ' : (s.topicApi t).map (·.id) = some api) (henv : t.environment = copy.environment) :
    t = row := by
  obtain ⟨a, ha, hid⟩ := Option.map_eq_some_iff.mp happ
  obtain ⟨a', ha', hid'⟩ := Option.map_eq_some_iff.mp happ'
  obtain ⟨hmem, hname⟩ := of_topicApi ha
  obtain ⟨hmem', hname'⟩ := of_topicApi ha'
  have heq : a = a' := List.inj_on_of_nodup_map h.apis hmem hmem' (hid.trans hid'.symm)
  rw [← heq] at hname'
  exact h.named t ht row hrow (henv.trans hsame.environment.symm)
    (hname'.symm.trans (hname.trans hsame.name.symm))

theorem serves_configuration {id : Nat} {previous : Operation} (hserves : next.servesApi = true)
    (hprevious : previous.Serves copy.toContract) :
    (configuration copy body next api previous id).Serves next := by
  simp only [Contract.servesApi, Bool.and_eq_true] at hserves
  constructor
  · simp only [configuration]
    split
    · rename_i hsame
      rw [hsame]
      exact hprevious.definition
    · obtain ⟨schema, hschema⟩ := Option.isSome_iff_exists.mp hserves.1.2
      have hsome : next.schemaJson = some schema := (Option.filter_eq_some_iff.mp hschema).1
      rw [hsome]
      rfl
  · simp only [configuration]
    split
    · rename_i hsame
      rw [hsame]
      exact hprevious.certificate
    · rfl

theorem sound_configure {previous : Operation} (h : Sound s)
    (hread : ∃ t ∈ s.topics, t.id = copy.id) (haccepted : Accepted body copy next)
    (hservesApi : next.servesApi = true) (happ : (s.topicApi copy).map (·.id) = some api)
    (hunchanged : Unchanged s copy) (hprevious : s.snapshot api copy.environment = some previous) :
    Sound (configure s copy body next api previous) := by
  obtain ⟨row, hrow, hid⟩ := hread
  obtain ⟨hsame, hcontract⟩ := hunchanged.sameRow hrow hid
  refine ⟨h.topics.mono (Nat.le_succ _), h.apis, ?_, h.named, ?_, h.undeleted, ?_, ?_, ?_⟩
  · have hnumbered := h.operations.append
    simpa [configure, configuration] using hnumbered
  · intro op hop a ha haid
    rcases List.mem_append.mp hop with hold | hnew
    · exact h.homes op hold a ha haid
    · rw [List.mem_singleton.mp hnew] at haid ⊢
      obtain ⟨a', ha', hid'⟩ := Option.map_eq_some_iff.mp happ
      obtain ⟨hmem', hname'⟩ := of_topicApi ha'
      have heq : a = a' := List.inj_on_of_nodup_map h.apis ha hmem' (haid.trans hid'.symm)
      rw [heq]
      exact ⟨row, hrow, hsame.environment, hsame.name.trans hname'.symm⟩
  · intro handler hmem
    rcases List.mem_append.mp hmem with hold | hnew
    · exact h.read handler hold
    · rw [List.mem_singleton.mp hnew]
      exact ⟨row, hrow, hid⟩
  · intro handler hmem
    rcases List.mem_append.mp hmem with hold | hnew
    · have hknows := h.knows handler hold
      cases handler with
      | patch user copy => trivial
      | subscribe user copy => trivial
      | configuring copy body next api previous => exact hknows
      | queued copy body next api operation =>
        exact ⟨hknows.1, hknows.2.1, Nat.lt_succ_of_lt hknows.2.2⟩
    · rw [List.mem_singleton.mp hnew]
      exact ⟨haccepted, happ, Nat.lt_succ_self _⟩
  · intro t ht
    replace ht : t ∈ s.topics := ht
    have hoperations : (configure s copy body next api previous).operations =
        s.operations ++ [configuration copy body next api previous s.next] := rfl
    have hsnapshot := snapshot_append hoperations
    by_cases htid : t.id = copy.id
    · obtain rfl : t = row := h.topics.key_injective ht hrow (htid.trans hid.symm)
      intro api' op hop
      obtain ⟨happ', hlast⟩ := published_eq_some.mp hop
      have hapi : api' = api := by
        have hfound : (s.topicApi t).map (·.id) = some api := by
          rw [topicApi_eq hsame]
          exact happ
        exact Option.some.inj (happ'.symm.trans hfound)
      rw [hsnapshot, if_pos ⟨hapi.symm, hsame.environment.symm⟩] at hlast
      obtain rfl := Option.some.inj hlast
      by_cases hwaits : ∃ copy' body' next' api' n, .queued copy' body' next' api' n ∈ s.suspended ∧
          copy'.id = t.id
      · -- another edit has queued its operation before
        obtain ⟨copy', body', next', api', n, hmem, hcopy'⟩ := hwaits
        have hlt := (h.knows _ hmem).2.2
        exact .inl ⟨copy', body', next', api', n, List.mem_append_left _ hmem, hcopy',
          Nat.ne_of_lt hlt⟩
      · have hpublished : s.published t = some (api, previous) := by
          rw [hunchanged.published hrow hid]
          exact published_eq_some.mpr ⟨happ, hprevious⟩
        have hagrees : previous.Serves copy.toContract := by
          rw [← hcontract]
          rcases h.settling t ht api previous hpublished with
            ⟨copy', body', next', api', n, hmem, hcopy', -⟩ | ⟨-, hwaiting | hserves⟩
          · exact absurd ⟨copy', body', next', api', n, hmem, hcopy'⟩ hwaits
          · exact absurd hwaiting hwaits
          · exact hserves
        refine .inr ⟨fun copy' body' next' api' n hmem hcopy' => ?_, .inl ?_⟩
        · rcases List.mem_append.mp hmem with hold | hnew
          · exact absurd ⟨copy', body', next', api', n, hold, hcopy'⟩ hwaits
          · cases List.mem_singleton.mp hnew
            exact serves_configuration hservesApi hagrees
        · exact ⟨copy, body, next, api, s.next, List.mem_append_right _ (List.mem_singleton_self _),
            htid.symm⟩
    · refine (h.settling t ht).same ?_ rfl (fun _ h => h) fun copy' body' next' api' n hcopy' => ?_
      · refine published_ext rfl fun api' happ' => ?_
        rw [hsnapshot, if_neg]
        rintro ⟨hapi, henv⟩
        have hapi : api = api' := hapi
        rw [← hapi] at happ'
        have heq := topic_eq_of_home h ht hrow hsame happ happ' henv.symm
        exact htid (heq ▸ hid)
      · constructor
        · intro hmem
          rcases List.mem_append.mp hmem with hold | hnew
          · exact hold
          · cases List.mem_singleton.mp hnew
            exact absurd hcopy'.symm htid
        · exact fun hmem => List.mem_append_left _ hmem

/-! ### Writing the row -/

def Topic.written (copy : Topic) (body : PatchBody) (next : Contract) (row : Topic) : Topic :=
  if row.id = copy.id then row.patched copy body next else row

theorem sameRow_written (copy : Topic) (body : PatchBody) (next : Contract) (row : Topic) :
    SameRow row (copy.written body next row) ∧ (copy.written body next row).state = row.state := by
  unfold Topic.written
  split <;> exact ⟨⟨rfl, rfl, rfl, rfl⟩, rfl⟩

theorem undeleted_map (h : Undeleted s) (f : Topic → Topic)
    (hf : ∀ t, (f t).id = t.id ∧ (f t).state = t.state) (htopics : s'.topics = s.topics.map f)
    (haccess : ∀ a' ∈ s'.access, a'.state.live = true →
      ∃ a ∈ s.access, a.state.live = true ∧ a.topicId = a'.topicId) : Undeleted s' := by
  intro a' ha' hlive t' ht' hid hdeleted
  rw [htopics] at ht'
  obtain ⟨t, ht, rfl⟩ := List.mem_map.mp ht'
  obtain ⟨a, ha, halive, haid⟩ := haccess a' ha' hlive
  rw [(hf t).2] at hdeleted
  rw [(hf t).1, ← haid] at hid
  exact h a ha halive t ht hid hdeleted

theorem undeleted_write (h : Undeleted s) (copy : Topic) (body : PatchBody) (next : Contract) :
    Undeleted (s.write copy body next) :=
  undeleted_map h (Topic.written copy body next)
    (fun t => ⟨(sameRow_written copy body next t).1.id, (sameRow_written copy body next t).2⟩) rfl
    fun a' ha' hlive => ⟨a', ha', hlive, rfl⟩

theorem sound_write (h : Sound s) (hunchanged : Unchanged s copy)
    (hwrites : s.writes copy next = true) : Sound (s.write copy body next) := by
  refine h.edited (Topic.written copy body next)
    (fun t _ => (sameRow_written copy body next t).1) rfl rfl rfl (Nat.le_refl _)
    (undeleted_write h.undeleted copy body next) (List.Subset.refl _) fun t ht => ?_
  obtain ⟨⟨hid, happ, henv, hname⟩, -⟩ := sameRow_written copy body next t
  have hpublished : (s.write copy body next).published (copy.written body next t) = s.published t :=
    published_eq rfl rfl happ henv hname
  by_cases htid : t.id = copy.id
  · simp only [Portal.writes, Bool.or_eq_true, Bool.and_eq_true, Option.isNone_iff_eq_none] at hwrites
    rcases hwrites with hnone | ⟨-, hstays⟩
    · intro api op hop
      rw [hpublished, hunchanged.published ht htid, hnone] at hop
      cases hop
    · have hwritten : (copy.written body next t).toContract = next := by
        rw [Topic.written, if_pos htid]
        rfl
      have hcontract := (hunchanged.sameRow ht htid).2
      simp only [Contract.moves, Bool.not_eq_true', Bool.or_eq_false_iff, bne_eq_false_iff_eq] at hstays
      refine (h.settling t ht).same hpublished hid (fun op hserves => ?_)
        fun _ _ _ _ _ _ => Iff.rfl
      rw [hwritten]
      rw [hcontract] at hserves
      exact ⟨hstays.1.trans hserves.definition, hstays.2.trans hserves.certificate⟩
  · have hsame : copy.written body next t = t := if_neg htid
    rw [hsame] at hpublished ⊢
    exact (h.settling t ht).same hpublished rfl (fun _ h => h) fun _ _ _ _ _ _ => Iff.rfl

theorem sound_resumeWrite {operation index : Nat} (h : Sound s)
    (hg : s.suspended[index]? = some (.queued copy body next api operation))
    (hunchanged : Unchanged s copy)
    (hlast : ∀ op, s.snapshot api copy.environment = some op → op.id = operation) :
    Sound ((s.resumed index).write copy body next) := by
  have hknows := h.knows _ (List.mem_of_getElem? hg)
  refine h.edited (Topic.written copy body next)
    (fun t _ => (sameRow_written copy body next t).1) rfl rfl rfl (Nat.le_refl _)
    (undeleted_write (s := s.resumed index) h.undeleted copy body next)
    (fun _ => mem_of_mem_resumed) fun t ht => ?_
  obtain ⟨⟨hid, happ, henv, hname⟩, -⟩ := sameRow_written copy body next t
  have hpublished : ((s.resumed index).write copy body next).published (copy.written body next t) =
      s.published t := published_eq rfl rfl happ henv hname
  by_cases htid : t.id = copy.id
  · have hwritten : (copy.written body next t).toContract = next := by
      rw [Topic.written, if_pos htid]
      rfl
    intro api' op hop
    rw [hpublished] at hop
    have hcopy : s.published copy = some (api', op) := (hunchanged.published ht htid) ▸ hop
    obtain ⟨happ', hsnapshot⟩ := published_eq_some.mp hcopy
    obtain rfl : api = api' := Option.some.inj (hknows.2.1.symm.trans happ')
    have hown := hlast op hsnapshot
    rcases h.settling t ht api op hop with
      ⟨copy', body', next', api', n, hmem, hcopy', hne⟩ | ⟨hall, -⟩
    · -- the edit that has been overtaken is another one
      refine .inl ⟨copy', body', next', api', n, mem_resumed hg hmem ?_, hcopy'.trans hid.symm, hne⟩
      intro heq
      cases heq
      exact hne hown.symm
    · rw [hwritten]
      refine .inr ⟨fun copy' body' next' api' n hmem hcopy' => ?_, .inr ?_⟩
      · exact hall copy' body' next' api' n (mem_of_mem_resumed hmem) (hcopy'.trans hid)
      · exact hall copy body next api operation (List.mem_of_getElem? hg) htid.symm
  · have hsame : copy.written body next t = t := if_neg htid
    rw [hsame] at hpublished ⊢
    refine (h.settling t ht).same hpublished rfl (fun _ h => h) fun copy' body' next' api' n hcopy' => ?_
    refine ⟨mem_of_mem_resumed, fun hmem => mem_resumed hg hmem fun heq => ?_⟩
    cases heq
    exact htid hcopy'.symm

theorem patch_eq_ok {now : Nat} (hok : patch c s topic body now = .ok s') :
    ∃ next, readPatch c s topic body now = .ok next ∧
      ((s.writes topic next = true ∧ s' = s.write topic body next) ∨
        ∃ api previous, s.published topic = some (api, previous) ∧ next.servesApi = true ∧
          s' = { s with suspended := s.suspended ++ [.configuring topic body next api previous] }) := by
  simp only [patch, bind_eq_ok] at hok
  obtain ⟨next, hread, hok⟩ := hok
  refine ⟨next, hread, ?_⟩
  split at hok
  · rename_i hnone
    rw [pure_eq_ok] at hok
    exact .inl ⟨by simp [Portal.writes, hnone], hok.symm⟩
  · rename_i api previous hpublished
    simp only [bind_eq_ok, ensure_eq_ok] at hok
    obtain ⟨-, hserves, hok⟩ := hok
    split at hok
    · rw [pure_eq_ok] at hok
      exact .inr ⟨api, previous, hpublished, hserves, hok.symm⟩
    · rename_i hstays
      rw [pure_eq_ok] at hok
      exact .inl ⟨by simp [Portal.writes, hserves, hstays], hok.symm⟩

theorem sound_patch {now : Nat} (h : Sound s) (hread : ∃ t ∈ s.topics, t.id = topic.id)
    (hunchanged : ∀ next, readPatch c s topic body now = .ok next → s.writes topic next = true →
      Unchanged s topic) (hok : patch c s topic body now = .ok s') : Sound s' := by
  obtain ⟨next, hnext, ⟨hwrites, rfl⟩ | ⟨api, previous, hpublished, hserves, rfl⟩⟩ := patch_eq_ok hok
  · exact sound_write h (hunchanged next hnext hwrites) hwrites
  · have happ := (published_eq_some.mp hpublished).1
    exact sound_append h hread ⟨accepted_of_readPatch hnext, hserves, happ⟩ fun _ _ _ _ _ heq =>
      nomatch heq

/-! ### Other steps -/

theorem sound_stage {id : Nat} (h : Sound s) (hok : stage chain s user id = .ok s') : Sound s' := by
  simp only [stage, bind_eq_ok, demand_eq_ok, ensure_eq_ok, pure_eq_ok] at hok
  obtain ⟨topic, -, -, -, -, -, -, -, environment, -, -, hfree, rfl⟩ := hok
  simp only [Bool.not_eq_true', List.any_eq_false, Bool.and_eq_true, beq_iff_eq, not_and] at hfree
  refine ⟨?_, h.apis, h.operations.mono (Nat.le_succ _), ?_, ?_, ?_, ?_, ?_, ?_⟩
  · have hnumbered := h.topics.append
    simpa using hnumbered
  · intro t ht t' ht' henv hname
    rcases List.mem_append.mp ht with hold | hnew <;> rcases List.mem_append.mp ht' with hold' | hnew'
    · exact h.named t hold t' hold' henv hname
    · rw [List.mem_singleton.mp hnew'] at henv hname
      exact absurd hname (hfree t hold henv)
    · rw [List.mem_singleton.mp hnew] at henv hname
      exact absurd hname.symm (hfree t' hold' henv.symm)
    · rw [List.mem_singleton.mp hnew, List.mem_singleton.mp hnew']
  · intro op hop api hapi hid
    obtain ⟨t, ht, hplace⟩ := h.homes op hop api hapi hid
    exact ⟨t, List.mem_append_left _ ht, hplace⟩
  · intro a ha hlive t ht hid
    rcases List.mem_append.mp ht with hold | hnew
    · exact h.undeleted a ha hlive t hold hid
    · rw [List.mem_singleton.mp hnew]
      rintro ⟨⟩
  · intro handler hmem
    obtain ⟨t, ht, hid⟩ := h.read handler hmem
    exact ⟨t, List.mem_append_left _ ht, hid⟩
  · intro handler hmem
    have hknows := h.knows handler hmem
    cases handler with
    | patch user copy => trivial
    | subscribe user copy => trivial
    | configuring copy body next api previous => exact hknows
    | queued copy body next api operation =>
      exact ⟨hknows.1, hknows.2.1, Nat.lt_succ_of_lt hknows.2.2⟩
  · intro t ht
    rcases List.mem_append.mp ht with hold | hnew
    · exact (h.settling t hold).same rfl rfl (fun _ h => h) fun _ _ _ _ _ _ => Iff.rfl
    · -- an API is only where its topic is, and the topic has not been there
      rw [List.mem_singleton.mp hnew]
      intro api op hop
      obtain ⟨happ, hsnapshot⟩ := published_eq_some.mp hop
      obtain ⟨a, ha, rfl⟩ := Option.map_eq_some_iff.mp happ
      obtain ⟨hamem, hname⟩ := of_topicApi ha
      obtain ⟨hopmem, hresource, henv⟩ := of_snapshot hsnapshot
      obtain ⟨t', ht', henv', hname'⟩ := h.homes op hopmem a hamem hresource.symm
      exact absurd (hname'.trans hname) (hfree t' ht' (henv'.trans henv))

def Topic.deletedAs (id : Nat) (t : Topic) : TopicState := if t.id = id then .deleted else t.state

theorem delete_eq_ok {id : Nat} (hok : delete s user id = .ok s') :
    ∃ topic : Topic, (∀ a ∈ s.access, a.state.live = true → a.topicId ≠ topic.id) ∧
      s' = { s with topics := s.topics.map fun t => { t with state := t.deletedAs topic.id } } := by
  simp only [delete, bind_eq_ok, demand_eq_ok, ensure_eq_ok, pure_eq_ok] at hok
  obtain ⟨topic, -, -, -, -, hfree, -, -, rfl⟩ := hok
  simp only [Bool.not_eq_true', List.any_eq_false, Bool.and_eq_true, beq_iff_eq, not_and] at hfree
  refine ⟨topic, fun a ha hlive hid => hfree a ha hid hlive, ?_⟩
  congr 1
  refine List.map_congr_left fun t _ => ?_
  unfold Topic.deletedAs
  split <;> rfl

theorem sound_delete {id : Nat} (h : Sound s) (hok : delete s user id = .ok s') : Sound s' := by
  obtain ⟨topic, hfree, rfl⟩ := delete_eq_ok hok
  refine h.states (·.deletedAs topic.id) rfl rfl rfl (Nat.le_refl _) ?_ rfl
  intro a ha hlive t' ht' hid
  obtain ⟨t, ht, rfl⟩ := List.mem_map.mp ht'
  have hid : t.id = a.topicId := hid
  have hother : t.id ≠ topic.id := fun heq => hfree a ha hlive (hid.symm.trans heq)
  show t.deletedAs topic.id ≠ .deleted
  rw [Topic.deletedAs, if_neg hother]
  exact h.undeleted a ha hlive t ht hid

def Topic.createdAs (id : Nat) (t : Topic) : TopicState :=
  if t.id = id ∧ t.state = .provisioning then .ready else t.state

theorem created_eq (s : Portal) (id : Nat) :
    created s id = { s with topics := s.topics.map fun t => { t with state := t.createdAs id } } := by
  unfold created
  congr 1
  refine List.map_congr_left fun t _ => ?_
  unfold Topic.createdAs
  split <;> rfl

theorem sound_created (h : Sound s) (id : Nat) : Sound (created s id) := by
  rw [created_eq]
  refine h.states (·.createdAs id) rfl rfl rfl (Nat.le_refl _) ?_ rfl
  intro a ha hlive t' ht' hid
  obtain ⟨t, ht, rfl⟩ := List.mem_map.mp ht'
  have hkept := h.undeleted a ha hlive t ht hid
  show t.createdAs id ≠ .deleted
  unfold Topic.createdAs
  split
  · exact fun heq => nomatch heq
  · exact hkept

structure Frame (s s' : Portal) : Prop where
  topics : s'.topics = s.topics
  apis : s'.apis = s.apis
  operations : s'.operations = s.operations
  suspended : s'.suspended = s.suspended
  next : s.next ≤ s'.next

theorem Sound.frame (h : Sound s) (hframe : Frame s s') (hundeleted : Undeleted s') : Sound s' := by
  refine h.states (·.state) ?_ hframe.apis hframe.operations hframe.next hundeleted hframe.suspended
  rw [hframe.topics]
  exact (List.map_id _).symm

theorem undeleted_access (h : Undeleted s) (f : Access → Access)
    (hf : ∀ a, (f a).topicId = a.topicId ∧ ((f a).state.live = true → a.state.live = true)) :
    Undeleted { s with access := s.access.map f } := by
  refine undeleted_map h id (fun t => ⟨rfl, rfl⟩) (List.map_id _).symm fun a' ha' hlive => ?_
  obtain ⟨a, ha, rfl⟩ := List.mem_map.mp ha'
  exact ⟨a, ha, (hf a).2 hlive, (hf a).1.symm⟩

theorem sound_withdraw {id : Nat} (h : Sound s) (hok : withdraw s user id = .ok s') :
    Sound s' ∧ s'.topics = s.topics := by
  simp only [withdraw, bind_eq_ok, demand_eq_ok, ensure_eq_ok, pure_eq_ok] at hok
  obtain ⟨row, -, topic, -, -, -, rfl⟩ := hok
  refine ⟨h.frame ⟨rfl, rfl, rfl, rfl, Nat.le_refl _⟩ (undeleted_access h.undeleted _ fun a => ?_), rfl⟩
  split
  · split
    · exact ⟨rfl, by rintro ⟨⟩⟩
    · exact ⟨rfl, fun hlive => hlive⟩
  · split
    · rename_i hactive
      refine ⟨rfl, fun _ => ?_⟩
      rcases hactive.2 with hstate | hstate <;> rw [hstate] <;> rfl
    · exact ⟨rfl, fun hlive => hlive⟩

theorem sound_decide (h : Sound s) (requestId : Nat) (approved : Bool) :
    Sound (decide s requestId approved) := by
  refine h.frame ⟨rfl, rfl, rfl, rfl, Nat.le_refl _⟩ (undeleted_access h.undeleted _ fun a => ?_)
  split
  · rename_i hpending
    refine ⟨rfl, fun _ => ?_⟩
    rw [hpending.2]
    rfl
  · exact ⟨rfl, fun hlive => hlive⟩

theorem sound_settled (h : Sound s) (id : Nat) : Sound (settled s id) := by
  refine h.frame ⟨rfl, rfl, rfl, rfl, Nat.le_refl _⟩ (undeleted_access h.undeleted _ fun a => ?_)
  split
  · rename_i hactivating
    refine ⟨rfl, fun _ => ?_⟩
    rw [hactivating.2]
    rfl
  · split
    · exact ⟨rfl, fun hlive => nomatch hlive⟩
    · exact ⟨rfl, fun hlive => hlive⟩

theorem sound_subscribe {body : SubscribeBody}
    (h : Sound s) (halive : assertSubscribe c s user topic body = .ok () →
      ∀ row ∈ s.topics, row.id = topic.id → row.state ≠ .deleted)
    (hok : subscribe c s user topic body = .ok s') : Sound s' ∧ s'.topics = s.topics := by
  simp only [subscribe, bind_eq_ok, pure_eq_ok] at hok
  obtain ⟨⟨⟩, hassert, rfl⟩ := hok
  refine ⟨h.frame ⟨rfl, rfl, rfl, rfl, Nat.le_add_right _ _⟩ ?_, rfl⟩
  intro a ha hlive t ht hid
  rcases List.mem_append.mp ha with hold | hnew
  · exact h.undeleted a hold hlive t ht hid
  · obtain ⟨i, hi, rfl⟩ := List.mem_mapIdx.mp hnew
    exact halive hassert t ht hid

theorem of_openPatch {id : Nat} (hok : openPatch s user id = .ok handler) :
    ∃ topic ∈ s.topics, handler = .patch user topic := by
  simp only [openPatch, bind_eq_ok, demand_eq_ok, ensure_eq_ok, pure_eq_ok] at hok
  obtain ⟨topic, htopic, -, -, rfl⟩ := hok
  exact ⟨topic, List.mem_of_find?_eq_some htopic, rfl⟩

theorem of_openSubscribe {id : Nat} (hok : openSubscribe s user id = .ok handler) :
    ∃ topic ∈ s.topics, handler = .subscribe user topic := by
  simp only [openSubscribe, bind_eq_ok, demand_eq_ok, pure_eq_ok] at hok
  obtain ⟨topic, htopic, rfl⟩ := hok
  exact ⟨topic, List.mem_of_find?_eq_some htopic, rfl⟩

theorem sound_suspend {outcome : Except HttpError Suspended} (h : Sound s)
    (hok : ∀ handler, outcome = .ok handler → ∃ user, ∃ topic ∈ s.topics,
      handler = .patch user topic ∨ handler = .subscribe user topic) :
    Sound (s.suspend outcome) := by
  cases outcome with
  | error e => exact h
  | ok handler =>
    obtain ⟨user, topic, htopic, rfl | rfl⟩ := hok handler rfl
    · exact sound_append h ⟨topic, htopic, rfl⟩ trivial fun _ _ _ _ _ heq => nomatch heq
    · exact sound_append h ⟨topic, htopic, rfl⟩ trivial fun _ _ _ _ _ heq => nomatch heq

/-! ### Steps -/

theorem orSame_of {P : Portal → Prop} {outcome : Except HttpError Portal} (h : P s)
    (hok : ∀ s', outcome = .ok s' → P s') : P (s.orSame outcome) := by
  cases outcome with
  | ok s' => exact hok s' rfl
  | error e => exact h

theorem sound_step (h : Sound s) (hcurrent : Current c s event s')
    (hstep : step c chain s event = some s') : Sound s' := by
  cases event with
  | openPatch user id =>
    cases hstep
    refine sound_suspend h fun handler hok => ?_
    obtain ⟨topic, htopic, rfl⟩ := of_openPatch hok
    exact ⟨user, topic, htopic, .inl rfl⟩
  | resumePatch index body now =>
    simp only [step] at hstep
    split at hstep
    · rename_i user copy hg
      cases hstep
      have hresumed := sound_resumed h hg fun _ _ _ _ _ heq => nomatch heq
      refine orSame_of hresumed fun s' hok => ?_
      exact sound_patch hresumed (h.read _ (List.mem_of_getElem? hg)) (hcurrent user copy hg) hok
    · cases hstep
  | resumeConfigure index accepted =>
    simp only [step] at hstep
    split at hstep
    · rename_i copy body next api previous hg
      cases hstep
      have hresumed := sound_resumed h hg fun _ _ _ _ _ heq => nomatch heq
      split
      · rename_i haccepted
        obtain ⟨hunchanged, hprevious⟩ := hcurrent haccepted copy body next api previous hg
        obtain ⟨hbody, hserves, happ⟩ := h.knows _ (List.mem_of_getElem? hg)
        exact sound_configure hresumed (h.read _ (List.mem_of_getElem? hg)) hbody hserves happ
          hunchanged hprevious
      · exact hresumed
    · cases hstep
  | resumeWrite index =>
    simp only [step] at hstep
    split at hstep
    · rename_i copy body next api operation hg
      cases hstep
      obtain ⟨hunchanged, hlast⟩ := hcurrent copy body next api operation hg
      exact sound_resumeWrite h hg hunchanged hlast
    · cases hstep
  | stage user id =>
    cases hstep
    exact orSame_of h fun _ => sound_stage h
  | delete user id =>
    cases hstep
    exact orSame_of h fun _ => sound_delete h
  | openSubscribe user id =>
    cases hstep
    refine sound_suspend h fun handler hok => ?_
    obtain ⟨topic, htopic, rfl⟩ := of_openSubscribe hok
    exact ⟨user, topic, htopic, .inr rfl⟩
  | resumeSubscribe index body =>
    simp only [step] at hstep
    split at hstep
    · rename_i user copy hg
      cases hstep
      have hresumed := sound_resumed h hg fun _ _ _ _ _ heq => nomatch heq
      exact orSame_of hresumed fun s' hok => (sound_subscribe hresumed (hcurrent user copy hg) hok).1
    · cases hstep
  | withdraw user id =>
    cases hstep
    exact orSame_of h fun _ hok => (sound_withdraw h hok).1
  | decide requestId approved =>
    cases hstep
    exact sound_decide h requestId approved
  | created id =>
    cases hstep
    exact sound_created h id
  | settled id =>
    cases hstep
    exact sound_settled h id

/-! ### What becomes of a row -/

theorem edited_of_states (state : Topic → TopicState)
    (htopics : s'.topics = s.topics.map fun t => { t with state := state t }) :
    Edited s event s' := by
  intro t ht
  rw [htopics]
  exact ⟨_, List.mem_map_of_mem ht, Evolves.state _ t (state t)⟩

theorem edited_of_subset (htopics : s.topics ⊆ s'.topics) : Edited s event s' :=
  fun t ht => ⟨t, htopics ht, Evolves.refl _ t⟩

theorem edited_write (haccepted : Accepted body copy next) (hunchanged : Unchanged s copy)
    (hbody : ∀ id, s.body id event = if copy.id = id then body else .nothing)
    (htopics : s'.topics = s.topics.map (copy.written body next)) : Edited s event s' := by
  intro t ht
  rw [htopics]
  refine ⟨copy.written body next t, List.mem_map_of_mem ht, ?_⟩
  rw [hbody, Topic.written]
  by_cases hid : t.id = copy.id
  · rw [if_pos hid, if_pos hid.symm]
    exact evolves_patched haccepted (hunchanged t ht hid)
  · rw [if_neg hid, if_neg (Ne.symm hid)]
    exact Evolves.refl _ t

theorem edited_step (h : Sound s) (hcurrent : Current c s event s')
    (hstep : step c chain s event = some s') : Edited s event s' := by
  have hsame : Edited s event s := edited_of_subset (List.Subset.refl _)
  cases event with
  | openPatch user id =>
    cases hstep
    cases openPatch s user id <;> exact hsame
  | resumePatch index body now =>
    simp only [step] at hstep
    split at hstep
    · rename_i user copy hg
      cases hstep
      refine orSame_of (s := s.resumed index) (P := Edited s _) hsame fun s' hok => ?_
      obtain ⟨next, hnext, ⟨hwrites, rfl⟩ | ⟨-, -, -, -, rfl⟩⟩ := patch_eq_ok hok
      · have hunchanged := hcurrent user copy hg next hnext hwrites
        exact edited_write (accepted_of_readPatch hnext) hunchanged
          (fun id => by simp only [Portal.body, hg]) rfl
      · exact hsame
    · cases hstep
  | resumeConfigure index accepted =>
    simp only [step] at hstep
    split at hstep
    · cases hstep
      split <;> exact hsame
    · cases hstep
  | resumeWrite index =>
    simp only [step] at hstep
    split at hstep
    · rename_i copy body next api operation hg
      cases hstep
      have haccepted := (h.knows _ (List.mem_of_getElem? hg)).1
      exact edited_write haccepted (hcurrent copy body next api operation hg).1
        (fun id => by simp only [Portal.body, hg]) rfl
    · cases hstep
  | stage user id =>
    cases hstep
    refine orSame_of (P := Edited s _) hsame fun s' hok => edited_of_subset ?_
    simp only [stage, bind_eq_ok, demand_eq_ok, ensure_eq_ok, pure_eq_ok] at hok
    obtain ⟨topic, -, -, -, -, -, -, -, environment, -, -, -, rfl⟩ := hok
    exact List.subset_append_left _ _
  | delete user id =>
    cases hstep
    refine orSame_of (P := Edited s _) hsame fun s' hok => ?_
    obtain ⟨topic, -, rfl⟩ := delete_eq_ok hok
    exact edited_of_states (·.deletedAs topic.id) rfl
  | openSubscribe user id =>
    cases hstep
    cases openSubscribe s user id <;> exact hsame
  | resumeSubscribe index body =>
    simp only [step] at hstep
    split at hstep
    · rename_i user copy hg
      cases hstep
      refine orSame_of (s := s.resumed index) (P := Edited s _) hsame fun s' hok => ?_
      have hresumed := sound_resumed h hg fun _ _ _ _ _ heq => by cases heq
      have htopics := (sound_subscribe hresumed (hcurrent user copy hg) hok).2
      exact edited_of_subset (htopics ▸ List.Subset.refl _)
    · cases hstep
  | withdraw user id =>
    cases hstep
    refine orSame_of (P := Edited s _) hsame fun s' hok => edited_of_subset ?_
    exact (sound_withdraw h hok).2 ▸ List.Subset.refl _
  | decide requestId approved =>
    cases hstep
    exact hsame
  | created id =>
    cases hstep
    rw [created_eq]
    exact edited_of_states (·.createdAs id) rfl
  | settled id =>
    cases hstep
    exact hsame

theorem lawful_of_current (c : Checks) (chain : List String) (s : Portal) (events : List Event)
    (h : Sound s) (hcurrent : EveryStep (step c chain) (Current c) s events) :
    EveryStep (step c chain) Lawful s events := by
  refine everyStep_of_guarded (I := Sound) (fun s event s' h hcurrent hstep => ?_) h hcurrent
  have hsound := sound_step h hcurrent hstep
  refine ⟨hsound, edited_step h hcurrent hstep, hsound.undeleted, fun t ht hquiet => ?_⟩
  exact agrees_of_settling (hsound.settling t ht) hquiet

end

/-! ### A topic with an API -/

def orders : Topic where
  schemaType := some "json"
  schemaJson := some "{}"
  schemaText := none
  compatibility := none
  certificateId := some "first"
  id := 1
  applicationId := "payments"
  environment := "test"
  name := "orders_v1"
  state := .ready
  domain := some "sales"
  subdomain := none
  replication := 2
  partitions := 8
  description := "orders"
  retentionDays := some 1
  minInsyncReplicas := none
  displayName := some "Orders"
  wikiLink := none
  schemaVersion := 1

def ordersOperation : Operation := ⟨3, 2, "test", ⟨"orders_v1", "{}", "orders"⟩, some "first"⟩

def staged : Portal where
  applications := ["payments", "ledger"]
  certificates := [⟨"first", "payments", "test", 1000⟩, ⟨"second", "payments", "test", 2000⟩]
  topics := [orders]
  access := []
  apis := [⟨2, "payments", "orders_v1", false⟩]
  operations := [ordersOperation]
  next := 4
  suspended := []

theorem sound_staged : Sound staged := by
  refine ⟨⟨by decide, by decide⟩, by decide, ⟨by decide, by decide⟩, ?_, ?_, ?_, ?_, ?_, ?_⟩
  · intro t ht t' ht' _ _
    rw [List.mem_singleton.mp ht, List.mem_singleton.mp ht']
  · intro op hop api hapi _
    rw [List.mem_singleton.mp hop, List.mem_singleton.mp hapi]
    exact ⟨orders, List.mem_singleton_self _, rfl, rfl⟩
  · exact fun a ha => absurd ha List.not_mem_nil
  · exact fun handler hmem => absurd hmem List.not_mem_nil
  · exact fun handler hmem => absurd hmem List.not_mem_nil
  · intro t ht api op hop
    have hpublished : staged.published orders = some (2, ordersOperation) := by decide
    rw [List.mem_singleton.mp ht, hpublished] at hop
    cases hop
    refine .inr ⟨fun _ _ _ _ _ hmem => absurd hmem List.not_mem_nil, .inr ?_⟩
    rw [List.mem_singleton.mp ht]
    exact ⟨rfl, rfl⟩

def checks : Checks := ⟨fun _ => none, fun _ => none, fun _ _ _ => none, id, fun _ _ => none⟩

def ada : User := ⟨"ada", false, ["payments"]⟩

def eve : User := ⟨"eve", false, ["ledger"]⟩

def unchanged (s : Portal) (copy : Topic) : Bool :=
  s.topics.all fun row => row.id != copy.id || { row with state := copy.state } == copy

theorem unchanged_sound {s : Portal} (h : unchanged s copy = true) : Unchanged s copy := by
  intro row hrow hid
  have hkept := List.all_eq_true.mp h row hrow
  simpa [hid] using hkept

def current (s : Portal) : Event → Bool
  | .resumePatch index _ _ =>
    match s.suspended[index]? with
    | some (.patch _ copy) => unchanged s copy
    | _ => true
  | .resumeConfigure index _ =>
    match s.suspended[index]? with
    | some (.configuring copy _ _ api previous) =>
      unchanged s copy && s.snapshot api copy.environment == some previous
    | _ => true
  | .resumeWrite index =>
    match s.suspended[index]? with
    | some (.queued copy _ _ api operation) =>
      unchanged s copy && (s.snapshot api copy.environment).all (·.id == operation)
    | _ => true
  | .resumeSubscribe index _ =>
    match s.suspended[index]? with
    | some (.subscribe _ copy) => s.topics.all fun row => row.id != copy.id || row.state != .deleted
    | _ => true
  | _ => true

theorem current_sound (c : Checks) (s : Portal) (event : Event) (s' : Portal)
    (h : current s event = true) : Current c s event s' := by
  cases event with
  | resumePatch index body now =>
    intro user copy hg next _ _
    simp only [current, hg] at h
    exact unchanged_sound h
  | resumeConfigure index accepted =>
    intro _ copy body next api previous hg
    simp only [current, hg, Bool.and_eq_true, beq_iff_eq] at h
    exact ⟨unchanged_sound h.1, h.2⟩
  | resumeWrite index =>
    intro copy body next api operation hg
    simp only [current, hg, Bool.and_eq_true, Option.all_eq_true, beq_iff_eq] at h
    exact ⟨unchanged_sound h.1, h.2⟩
  | resumeSubscribe index body =>
    intro user copy hg _ row hrow hid
    simp only [current, hg, List.all_eq_true] at h
    simpa [hid] using h row hrow
  | _ => trivial

theorem lawful_staged : EveryStep (step checks ["test", "prod"]) Lawful staged
    [.openPatch ada 1, .resumePatch 0 { PatchBody.nothing with certificateId := some (some "second") } 10,
      .resumeConfigure 0 true, .resumeWrite 0, .openPatch ada 1,
      .resumePatch 0 { PatchBody.nothing with partitions := some 32 } 20, .stage ada 1,
      .openSubscribe eve 1, .resumeSubscribe 0 ⟨"ledger", "reports", "oauth", "reader", ["read"]⟩] :=
  lawful_of_current checks ["test", "prod"] staged _ sound_staged
    (everyStep_of_passes current (current_sound checks) (by decide +kernel))

theorem undone_by_overlap : ¬∀ (c : Checks) (chain : List String) (s : Portal) (events : List Event),
    Sound s → EveryStep (step c chain) Lawful s events := by
  intro hall
  have hrun := hall checks ["test", "prod"] staged ([.openPatch ada 1, .openPatch ada 1,
    .resumePatch 0 { PatchBody.nothing with partitions := some 32 } 20] ++
      [.resumePatch 0 { PatchBody.nothing with description := some "all orders" } 30]) sound_staged
  refine not_everyStep_of_observed (P := Lawful) (fun s₁ s₂ => !s₁.topics.all fun t =>
    s₂.topics.any fun t' => t'.id == t.id && Decidable.decide (t.partitions ≤ t'.partitions)) ?_
    (by decide +kernel) hrun
  intro s₁ s₂ hbad hlawful
  rw [Bool.not_eq_true', ← Bool.not_eq_true, List.all_eq_true] at hbad
  refine hbad fun t ht => ?_
  obtain ⟨t', ht', hevolves⟩ := hlawful.edited t ht
  refine List.any_eq_true.mpr ⟨t', ht', ?_⟩
  simp [hevolves.keeps.id, hevolves.partitions]

end Apim.KafkaTopics
