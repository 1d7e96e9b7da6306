import Apim.ControlPlane.Database
import Apim.Lib.Trace

/-!
# The trust store of an environment

Anchors are registered, removed by dating them, and copied from another environment
(`control-plane/src/api/trust.ts:464-674`, `:1243-1287`). A copy is planned against the anchors as they
stand when it is asked for, and then inserted row by row in one transaction; a unique index keeps the
certificates of an environment apart (`control-plane/migrations/schema-004.sql:33`), the names are kept
apart by the code that finds them.
-/

namespace Apim.TrustAnchors
open ControlPlane

structure Parsed where
  thumbprint : String
  certPem : String
  notAfter : Nat

structure Config where
  promotionChain : List Environment
  maxTrustAnchors : Nat
  parseAnchor : String → Except String Parsed

def liveIn (anchors : List TrustAnchor) (environment : Environment) : List TrustAnchor :=
  anchors.filter fun a => a.environment == environment && a.removedAt.isNone

def trusts (anchors : List TrustAnchor) (environment : Environment) (thumbprint : String) : Bool :=
  (liveIn anchors environment).any (·.thumbprint == thumbprint)

def insertAnchor (anchors : List TrustAnchor) (row : TrustAnchor) : Option (List TrustAnchor) :=
  if trusts anchors row.environment row.thumbprint then none else some (anchors ++ [row])

def hasRoom (cfg : Config) (anchors : List TrustAnchor) (environment : Environment) (adding : Nat) : Bool :=
  (liveIn anchors environment).length + adding ≤ cfg.maxTrustAnchors

/-! ### The names -/

def cut (name : String) : String := String.ofList (name.toList.take 61)

def numbered (wanted : String) (suffix : Nat) : String := cut (wanted ++ "-" ++ toString suffix)

def candidates (wanted : String) : List String := wanted :: (List.range' 2 98).map (numbered wanted)

def freeName (taken : List String) (wanted : String) (now : Nat) : String :=
  ((candidates wanted).find? fun candidate => !taken.contains candidate).getD (numbered wanted now)

def namesIn (anchors : List TrustAnchor) (environment : Environment) : List String :=
  (anchors.filter (·.environment == environment)).map (·.name)

def uniqueAnchorName (anchors : List TrustAnchor) (environment : Environment) (wanted : String)
    (now : Nat) : String :=
  freeName (namesIn anchors environment) wanted now

def isAnchorName (name : String) : Bool :=
  let plain (c : Char) : Bool := c.isLower || c.isDigit
  match name.toList with
  | c :: rest => plain c && 1 ≤ rest.length && rest.length ≤ 60 && rest.all fun c => plain c || c == '-'
  | [] => false

/-! ### The plan of a copy -/

inductive SkipReason where
  | notLive
  | alreadyTrusted
  | expired (notAfter : Nat)
  deriving DecidableEq, Repr

inductive Verdict where
  | copy (row : TrustAnchor)
  | skip (reason : SkipReason)

def judge (anchors : List TrustAnchor) (source target : Environment) (now id : Nat) : Verdict :=
  match (liveIn anchors source).find? (·.id == id) with
  | none => .skip .notLive
  | some row =>
    if trusts anchors target row.thumbprint then .skip .alreadyTrusted
    else if row.notAfter ≤ now then .skip (.expired row.notAfter)
    else .copy row

def Verdict.copied : Verdict → Option TrustAnchor
  | .copy row => some row
  | .skip _ => none

def Verdict.skipped (id : Nat) : Verdict → Option (Nat × SkipReason)
  | .copy _ => none
  | .skip reason => some (id, reason)

structure Plan where
  copy : List TrustAnchor
  skipped : List (Nat × SkipReason)
  deriving DecidableEq

def plan (anchors : List TrustAnchor) (source target : Environment) (now : Nat) (ids : List Nat) : Plan where
  copy := ids.filterMap fun id => (judge anchors source target now id).copied
  skipped := ids.filterMap fun id => (judge anchors source target now id).skipped id

def copyOf (anchors : List TrustAnchor) (target : Environment) (now id : Nat) (row : TrustAnchor) :
    TrustAnchor :=
  { row with
    id := id
    environment := target
    name := uniqueAnchorName anchors target row.name now
    removedAt := none }

/-- The transaction: `none` when an insert fails, and then all of it is rolled back. -/
def apply (target : Environment) (now : Nat) :
    List TrustAnchor → Nat → List TrustAnchor → Option (List TrustAnchor)
  | anchors, _, [] => some anchors
  | anchors, nextId, row :: rows =>
    (insertAnchor anchors (copyOf anchors target now nextId row)).bind fun anchors =>
      apply target now anchors (nextId + 1) rows

/-! ### The requests -/

inductive Request where
  | register (environment : Environment) (name pem : String)
  | remove (id : Nat)
  | copyFrom (source target : Environment) (ids : List Nat) (dryRun : Bool)

inductive Refusal where
  | unknownEnvironment (environment : Environment)
  | badName
  | badCertificate (message : String)
  | noRoom (environment : Environment)
  | duplicate (environment : Environment)
  | notFound (id : Nat)
  | sameEnvironment
  | noIds
  | uniqueFailed
  deriving DecidableEq, Repr

inductive Response where
  | refused (reason : Refusal)
  | registered (id : Nat)
  | removed
  | dryRun (plan : Plan)
  | copied (plan : Plan) (created : List Nat)

structure Shown where
  source : Environment
  target : Environment
  ids : List Nat
  at_ : Nat
  plan : Plan

structure Store where
  anchors : List TrustAnchor
  nextId : Nat
  now : Nat
  shown : List Shown

def Store.empty (now : Nat) : Store := ⟨[], 0, now, []⟩

def register (cfg : Config) (s : Store) (environment : Environment) (name pem : String) :
    Response × List TrustAnchor :=
  if !cfg.promotionChain.contains environment then (.refused (.unknownEnvironment environment), s.anchors)
  else if !isAnchorName name then (.refused .badName, s.anchors)
  else
    match cfg.parseAnchor pem with
    | .error message => (.refused (.badCertificate message), s.anchors)
    | .ok parsed =>
      if !hasRoom cfg s.anchors environment 1 then (.refused (.noRoom environment), s.anchors)
      else
        match insertAnchor s.anchors
          ⟨s.nextId, environment, name, parsed.thumbprint, parsed.certPem, parsed.notAfter, none⟩ with
        | none => (.refused (.duplicate environment), s.anchors)
        | some anchors => (.registered s.nextId, anchors)

/-- `UPDATE trust_anchor SET removed_at = ? WHERE id = ?`, of one that is not dated yet. -/
def remove (s : Store) (id : Nat) : Response × List TrustAnchor :=
  match s.anchors.find? (·.id == id) with
  | none => (.refused (.notFound id), s.anchors)
  | some row =>
    if row.removedAt.isSome then (.removed, s.anchors)
    else
      (.removed, s.anchors.map fun a => if a.id = id then { a with removedAt := some s.now } else a)

def copyFrom (cfg : Config) (s : Store) (source target : Environment) (ids : List Nat) (dryRun : Bool) :
    Response × List TrustAnchor :=
  if !cfg.promotionChain.contains source then (.refused (.unknownEnvironment source), s.anchors)
  else if !cfg.promotionChain.contains target then (.refused (.unknownEnvironment target), s.anchors)
  else if source = target then (.refused .sameEnvironment, s.anchors)
  else if ids = [] then (.refused .noIds, s.anchors)
  else
    let planned := plan s.anchors source target s.now ids
    if dryRun then (.dryRun planned, s.anchors)
    else if !hasRoom cfg s.anchors target planned.copy.length then (.refused (.noRoom target), s.anchors)
    else
      match apply target s.now s.anchors s.nextId planned.copy with
      | none => (.refused .uniqueFailed, s.anchors)
      | some anchors => (.copied planned (List.range' s.nextId planned.copy.length), anchors)

def respond (cfg : Config) (s : Store) : Request → Response × List TrustAnchor
  | .register environment name pem => register cfg s environment name pem
  | .remove id => remove s id
  | .copyFrom source target ids dryRun => copyFrom cfg s source target ids dryRun

inductive Event where
  | pass (ms : Nat)
  | request (request : Request)

def stillShown (s : Store) (request : Request) (response : Response) (anchors : List TrustAnchor) :
    List Shown :=
  if anchors ≠ s.anchors then []
  else
    match request, response with
    | .copyFrom source target ids _, .dryRun plan => s.shown ++ [⟨source, target, ids, s.now, plan⟩]
    | _, _ => s.shown

def step (cfg : Config) (s : Store) : Event → Option Store
  | .pass ms => some { s with now := s.now + ms }
  | .request request =>
    let (response, anchors) := respond cfg s request
    some {
      anchors
      nextId := s.nextId + (anchors.length - s.anchors.length)
      now := s.now
      shown := stillShown s request response anchors }

/-! ### What is promised -/

/-- No two live anchors of one environment have the same certificate or the same name. -/
def Distinct (anchors : List TrustAnchor) : Prop :=
  (anchors.filter (·.removedAt.isNone)).Pairwise fun a b =>
    a.environment = b.environment → a.thumbprint ≠ b.thumbprint ∧ a.name ≠ b.name

structure CopyOf (target : Environment) (row created : TrustAnchor) : Prop where
  environment : created.environment = target
  thumbprint : created.thumbprint = row.thumbprint
  certPem : created.certPem = row.certPem
  notAfter : created.notAfter = row.notAfter
  live : created.removedAt = none

def Answered (s next : Store) (request : Request) : Response → Prop
  | .copied plan created =>
    (∃ rows, next.anchors = s.anchors ++ rows ∧ created = rows.map (·.id) ∧
      match request with
      | .copyFrom _ target _ _ => List.Forall₂ (CopyOf target) plan.copy rows
      | _ => False) ∧
    ∀ shown ∈ s.shown, ∀ dryRun, request = .copyFrom shown.source shown.target shown.ids dryRun →
      shown.plan = plan
  | .dryRun _ => next.anchors = s.anchors
  | .refused _ => next.anchors = s.anchors
  | .registered _ => True
  | .removed => True

structure Promised (cfg : Config) (s : Store) (e : Event) (next : Store) : Prop where
  distinct : Distinct next.anchors
  answered : ∀ request, e = .request request → Answered s next request (respond cfg s request).1

/-! ### The condition -/

def due (anchors : List TrustAnchor) (source target : Environment) (now id : Nat) : Option TrustAnchor :=
  ((liveIn anchors source).find? (·.id == id)).filter fun row =>
    !trusts anchors target row.thumbprint && decide (now < row.notAfter)

/-- Each of the names, in turn, finds a candidate that is not taken, or the one with the clock is not
that of a live anchor. -/
def Spares (now : Nat) (taken live : List String) : List String → Prop
  | [] => True
  | name :: names =>
    ((∃ candidate ∈ candidates name, candidate ∉ taken) ∨ numbered name now ∉ live) ∧
      Spares now (taken ++ [freeName taken name now]) (live ++ [freeName taken name now]) names

/-- A registration that goes through brings a name no live anchor has. For the anchors of a copy that
goes through there are names left, and none of them expired since a dry run showed it. -/
def Meets (cfg : Config) (s : Store) : Event → Prop
  | .request (.register environment name pem) =>
    cfg.promotionChain.contains environment = true → isAnchorName name = true →
      ∀ parsed, cfg.parseAnchor pem = .ok parsed → hasRoom cfg s.anchors environment 1 = true →
        trusts s.anchors environment parsed.thumbprint = false →
          ∀ a ∈ liveIn s.anchors environment, a.name ≠ name
  | .request (.copyFrom source target ids false) =>
    let rows := ids.filterMap (due s.anchors source target s.now)
    cfg.promotionChain.contains source = true → cfg.promotionChain.contains target = true →
      source ≠ target → ids ≠ [] → hasRoom cfg s.anchors target rows.length = true →
        (rows.map (·.thumbprint)).Nodup →
          Spares s.now (namesIn s.anchors target) ((liveIn s.anchors target).map (·.name))
              (rows.map (·.name)) ∧
            ∀ shown ∈ s.shown, shown.source = source → shown.target = target → shown.ids = ids →
              ∀ id ∈ ids, ∀ row, (liveIn s.anchors source).find? (·.id == id) = some row →
                trusts s.anchors target row.thumbprint = false →
                  ¬ (shown.at_ < row.notAfter ∧ row.notAfter ≤ s.now)
  | _ => True

/-! ### One row more -/

variable {environment : Environment}

section
variable {anchors : List TrustAnchor} {row : TrustAnchor}

theorem liveIn_append_self (hlive : row.removedAt = none) :
    liveIn (anchors ++ [row]) row.environment = liveIn anchors row.environment ++ [row] := by
  simp [liveIn, List.filter_append, hlive]

theorem namesIn_append_self :
    namesIn (anchors ++ [row]) row.environment = namesIn anchors row.environment ++ [row.name] := by
  simp [namesIn, List.filter_append]

theorem mem_liveIn {a : TrustAnchor} :
    a ∈ liveIn anchors environment ↔ a ∈ anchors ∧ a.environment = environment ∧ a.removedAt = none := by
  simp [liveIn]

theorem trusts_eq_false {thumbprint : String} :
    trusts anchors environment thumbprint = false ↔
      ∀ a ∈ liveIn anchors environment, a.thumbprint ≠ thumbprint := by
  simp [trusts]

theorem insertAnchor_eq_some {next : List TrustAnchor} :
    insertAnchor anchors row = some next ↔
      trusts anchors row.environment row.thumbprint = false ∧ next = anchors ++ [row] := by
  unfold insertAnchor
  cases trusts anchors row.environment row.thumbprint with
  | true => simp
  | false => simp [eq_comm]

theorem distinct_append (hlive : row.removedAt = none) :
    Distinct (anchors ++ [row]) ↔ Distinct anchors ∧
      ∀ a ∈ liveIn anchors row.environment, a.thumbprint ≠ row.thumbprint ∧ a.name ≠ row.name := by
  unfold Distinct
  rw [List.filter_append, List.pairwise_append]
  have hsingle : [row].filter (·.removedAt.isNone) = [row] := by simp [hlive]
  rw [hsingle]
  constructor
  · rintro ⟨hold, -, hnew⟩
    refine ⟨hold, fun a ha => ?_⟩
    obtain ⟨hin, henvironment, hnone⟩ := mem_liveIn.mp ha
    exact hnew a (List.mem_filter.mpr ⟨hin, by rw [hnone]; rfl⟩) row (List.mem_singleton.mpr rfl)
      henvironment
  · rintro ⟨hold, hnew⟩
    refine ⟨hold, List.pairwise_singleton _ _, fun a ha b hb henvironment => ?_⟩
    obtain rfl := List.mem_singleton.mp hb
    obtain ⟨hin, hnone⟩ := List.mem_filter.mp ha
    exact hnew a (mem_liveIn.mpr ⟨hin, henvironment, by simpa using hnone⟩)

end

/-! ### The names that are found -/

theorem freeName_eq (taken : List String) (wanted : String) (now : Nat) :
    (freeName taken wanted now ∉ taken ∧ ∃ candidate ∈ candidates wanted, candidate ∉ taken) ∨
      (freeName taken wanted now = numbered wanted now ∧
        ¬ ∃ candidate ∈ candidates wanted, candidate ∉ taken) := by
  unfold freeName
  cases hfind : (candidates wanted).find? fun candidate => !taken.contains candidate with
  | some candidate =>
    have hfree := List.find?_some hfind
    have hnotin : candidate ∉ taken := by simpa using hfree
    exact .inl ⟨hnotin, candidate, List.mem_of_find?_eq_some hfind, hnotin⟩
  | none =>
    refine .inr ⟨rfl, fun ⟨candidate, hmem, hnotin⟩ => ?_⟩
    have hused := List.find?_eq_none.mp hfind candidate hmem
    simp [hnotin] at hused

theorem freeName_notMem_iff {taken live : List String} (hsub : ∀ name ∈ live, name ∈ taken)
    (wanted : String) (now : Nat) :
    freeName taken wanted now ∉ live ↔
      (∃ candidate ∈ candidates wanted, candidate ∉ taken) ∨ numbered wanted now ∉ live := by
  rcases freeName_eq taken wanted now with ⟨hnotin, hfree⟩ | ⟨heq, hnone⟩
  · exact iff_of_true (fun hin => hnotin (hsub _ hin)) (.inl hfree)
  · rw [heq, or_iff_right hnone]

theorem live_names_taken (anchors : List TrustAnchor) (environment : Environment) :
    ∀ name ∈ (liveIn anchors environment).map (·.name), name ∈ namesIn anchors environment := by
  intro name hname
  obtain ⟨a, ha, rfl⟩ := List.mem_map.mp hname
  obtain ⟨hin, henvironment, -⟩ := mem_liveIn.mp ha
  exact List.mem_map.mpr ⟨a, List.mem_filter.mpr ⟨hin, by simpa using henvironment⟩, rfl⟩

/-! ### The transaction -/

variable {n : Nat} {rows : List TrustAnchor}

section
variable {target : Environment} {now : Nat} {anchors next : List TrustAnchor}

theorem liveIn_copyOf (anchors : List TrustAnchor) (target : Environment) (now n : Nat)
    (row : TrustAnchor) : liveIn (anchors ++ [copyOf anchors target now n row]) target =
      liveIn anchors target ++ [copyOf anchors target now n row] :=
  @liveIn_append_self anchors (copyOf anchors target now n row) rfl

theorem apply_cons_eq_some {row : TrustAnchor}
    (h : apply target now anchors n (row :: rows) = some next) :
    trusts anchors target row.thumbprint = false ∧
      apply target now (anchors ++ [copyOf anchors target now n row]) (n + 1) rows = some next := by
  obtain ⟨mid, hinsert, hrest⟩ := Option.bind_eq_some_iff.mp h
  obtain ⟨hnew, rfl⟩ := insertAnchor_eq_some.mp hinsert
  exact ⟨hnew, hrest⟩

theorem apply_eq_some (h : apply target now anchors n rows = some next) :
    ∃ created, next = anchors ++ created ∧ created.map (·.id) = List.range' n rows.length ∧
      List.Forall₂ (CopyOf target) rows created := by
  induction rows generalizing anchors n with
  | nil =>
    obtain rfl := Option.some.inj h
    exact ⟨[], (List.append_nil _).symm, rfl, .nil⟩
  | cons row rows ih =>
    obtain ⟨-, hrest⟩ := apply_cons_eq_some h
    obtain ⟨created, hnext, hids, hcopies⟩ := ih hrest
    refine ⟨copyOf anchors target now n row :: created, ?_, ?_, .cons ⟨rfl, rfl, rfl, rfl, rfl⟩ hcopies⟩
    · rw [hnext, List.append_assoc]
      rfl
    · rw [List.map_cons, hids]
      rfl

theorem apply_ne_some_of_trusted {twin : TrustAnchor} (hin : twin ∈ rows)
    (htrusted : trusts anchors target twin.thumbprint = true) :
    apply target now anchors n rows ≠ some next := by
  induction rows generalizing anchors n with
  | nil => cases hin
  | cons row rows ih =>
    intro h
    obtain ⟨hnew, hrest⟩ := apply_cons_eq_some h
    cases List.mem_cons.mp hin with
    | inl heq =>
      rw [← heq, htrusted] at hnew
      cases hnew
    | inr hin =>
      refine ih hin ?_ hrest
      unfold trusts at htrusted ⊢
      rw [liveIn_copyOf, List.any_append, htrusted]
      rfl

theorem apply_isSome_iff (hnew : ∀ row ∈ rows, trusts anchors target row.thumbprint = false) :
    (apply target now anchors n rows).isSome ↔ (rows.map (·.thumbprint)).Nodup := by
  induction rows generalizing anchors n with
  | nil => simp [apply]
  | cons row rows ih =>
    have hrow := hnew row List.mem_cons_self
    have hinsert : insertAnchor anchors (copyOf anchors target now n row) =
        some (anchors ++ [copyOf anchors target now n row]) := insertAnchor_eq_some.mpr ⟨hrow, rfl⟩
    have hlive := liveIn_copyOf anchors target now n row
    rw [apply, hinsert, Option.bind_some, List.map_cons, List.nodup_cons]
    by_cases hrepeats : row.thumbprint ∈ rows.map (·.thumbprint)
    · -- The same certificate again, later in the list: its insert fails.
      refine iff_of_false (fun hsome => ?_) fun h => h.1 hrepeats
      obtain ⟨twin, htwin, heq⟩ := List.mem_map.mp hrepeats
      obtain ⟨last, hlast⟩ := Option.isSome_iff_exists.mp hsome
      refine apply_ne_some_of_trusted htwin ?_ hlast
      unfold trusts
      rw [hlive, List.any_append, heq]
      simp [copyOf]
    · rw [ih ?later]
      case later =>
        intro later hlater
        have hapart : row.thumbprint ≠ later.thumbprint := by
          intro heq
          exact hrepeats (heq ▸ List.mem_map_of_mem hlater)
        have hold := trusts_eq_false.mp (hnew later (List.mem_cons_of_mem _ hlater))
        rw [trusts_eq_false, hlive]
        intro a ha
        cases List.mem_append.mp ha with
        | inl hin => exact hold a hin
        | inr hin =>
          rw [List.mem_singleton.mp hin]
          exact hapart
      exact ⟨fun h => ⟨hrepeats, h⟩, fun h => h.2⟩

theorem distinct_apply (hdistinct : Distinct anchors)
    (h : apply target now anchors n rows = some next) :
    Distinct next ↔ Spares now (namesIn anchors target) ((liveIn anchors target).map (·.name))
      (rows.map (·.name)) := by
  induction rows generalizing anchors n with
  | nil =>
    obtain rfl := Option.some.inj h
    exact iff_of_true hdistinct trivial
  | cons row rows ih =>
    obtain ⟨hnew, hrest⟩ := apply_cons_eq_some h
    have hlive := liveIn_copyOf anchors target now n row
    have hnames : namesIn (anchors ++ [copyOf anchors target now n row]) target =
        namesIn anchors target ++ [freeName (namesIn anchors target) row.name now] :=
      @namesIn_append_self anchors (copyOf anchors target now n row)
    have happend : Distinct (anchors ++ [copyOf anchors target now n row]) ↔
        freeName (namesIn anchors target) row.name now ∉ (liveIn anchors target).map (·.name) := by
      rw [distinct_append rfl]
      constructor
      · rintro ⟨-, hapart⟩ hin
        obtain ⟨a, ha, heq⟩ := List.mem_map.mp hin
        exact (hapart a ha).2 heq
      · intro hfree
        refine ⟨hdistinct, fun a ha => ⟨trusts_eq_false.mp hnew a ha, fun heq => hfree ?_⟩⟩
        exact List.mem_map.mpr ⟨a, ha, heq⟩
    rw [List.map_cons, Spares, ← freeName_notMem_iff (live_names_taken anchors target), ← happend]
    by_cases hone : Distinct (anchors ++ [copyOf anchors target now n row])
    · rw [ih hone hrest, hlive, hnames, List.map_append]
      exact ⟨fun h => ⟨hone, h⟩, fun h => h.2⟩
    · -- The rows that follow do not mend it.
      refine iff_of_false (fun hnext => hone ?_) fun h => hone h.1
      obtain ⟨created, rfl, -, -⟩ := apply_eq_some hrest
      unfold Distinct at hnext ⊢
      rw [List.filter_append] at hnext
      exact (List.pairwise_append.mp hnext).1

end

/-! ### The plan -/

variable {ids : List Nat}

section
variable {anchors : List TrustAnchor} {source target : Environment}

theorem copied_judge (now id : Nat) :
    (judge anchors source target now id).copied = due anchors source target now id := by
  unfold judge due
  cases (liveIn anchors source).find? (·.id == id) with
  | none => rfl
  | some row =>
    by_cases htrusted : trusts anchors target row.thumbprint = true
    · simp [htrusted, Verdict.copied, Option.filter]
    · by_cases hexpired : row.notAfter ≤ now
      · simp [htrusted, hexpired, Verdict.copied, Option.filter, Nat.not_lt.mpr hexpired]
      · simp [htrusted, hexpired, Verdict.copied, Option.filter, Nat.lt_of_not_le hexpired]

theorem plan_copy (now : Nat) (ids : List Nat) :
    (plan anchors source target now ids).copy = ids.filterMap (due anchors source target now) := by
  unfold plan
  simp only [copied_judge]

theorem new_of_due {now id : Nat} {row : TrustAnchor} (h : due anchors source target now id = some row) :
    trusts anchors target row.thumbprint = false := by
  have hkeep := (Option.filter_eq_some_iff.mp h).2
  simp only [Bool.and_eq_true, Bool.not_eq_true'] at hkeep
  exact hkeep.1

theorem new_of_plan {now : Nat} :
    ∀ row ∈ (plan anchors source target now ids).copy, trusts anchors target row.thumbprint = false := by
  intro row hrow
  rw [plan_copy] at hrow
  obtain ⟨id, -, hdue⟩ := List.mem_filterMap.mp hrow
  exact new_of_due hdue

theorem filterMap_agree {α β : Type*} {f g : α → Option β} (hle : ∀ a b, g a = some b → f a = some b)
    {as : List α} (h : as.filterMap f = as.filterMap g) : ∀ a ∈ as, f a = g a := by
  have hlength : ∀ as : List α, (as.filterMap g).length ≤ (as.filterMap f).length := by
    intro as
    induction as with
    | nil => exact Nat.le_refl _
    | cons a as ih =>
      cases hg : g a with
      | some b =>
        rw [List.filterMap_cons_some hg, List.filterMap_cons_some (hle a b hg)]
        exact Nat.succ_le_succ ih
      | none =>
        rw [List.filterMap_cons_none hg]
        cases hf : f a with
        | some b =>
          rw [List.filterMap_cons_some hf]
          exact Nat.le_succ_of_le ih
        | none =>
          rw [List.filterMap_cons_none hf]
          exact ih
  induction as with
  | nil => intro a ha; cases ha
  | cons head as ih =>
    intro a ha
    cases hg : g head with
    | some b =>
      rw [List.filterMap_cons_some hg, List.filterMap_cons_some (hle head b hg)] at h
      cases List.mem_cons.mp ha with
      | inl heq => rw [heq, hle head b hg, hg]
      | inr hin => exact ih (List.cons.inj h).2 a hin
    | none =>
      cases hf : f head with
      | some b =>
        rw [List.filterMap_cons_none hg, List.filterMap_cons_some hf] at h
        have hshort := hlength as
        rw [← h, List.length_cons] at hshort
        omega
      | none =>
        rw [List.filterMap_cons_none hg, List.filterMap_cons_none hf] at h
        cases List.mem_cons.mp ha with
        | inl heq => rw [heq, hf, hg]
        | inr hin => exact ih h a hin

theorem plan_eq_iff {before now : Nat} (hle : before ≤ now) (ids : List Nat) :
    plan anchors source target before ids = plan anchors source target now ids ↔
      ∀ id ∈ ids, ∀ row, (liveIn anchors source).find? (·.id == id) = some row →
        trusts anchors target row.thumbprint = false →
          ¬ (before < row.notAfter ∧ row.notAfter ≤ now) := by
  constructor
  · intro h id hid row hrow hnew hexpires
    have hcopy := congrArg Plan.copy h
    rw [plan_copy, plan_copy] at hcopy
    have hweaker : ∀ id row, due anchors source target now id = some row →
        due anchors source target before id = some row := by
      intro id row hdue
      obtain ⟨hfind, hkeep⟩ := Option.filter_eq_some_iff.mp hdue
      refine Option.filter_eq_some_iff.mpr ⟨hfind, ?_⟩
      simp only [Bool.and_eq_true, decide_eq_true_eq] at hkeep ⊢
      exact ⟨hkeep.1, by omega⟩
    have hagree := filterMap_agree hweaker hcopy id hid
    unfold due at hagree
    rw [hrow] at hagree
    simp [Option.filter, hnew, hexpires.1, Nat.not_lt.mpr hexpires.2] at hagree
  · intro h
    have hjudge : ∀ id ∈ ids, judge anchors source target before id = judge anchors source target now id := by
      intro id hid
      unfold judge
      cases hfind : (liveIn anchors source).find? (·.id == id) with
      | none => rfl
      | some row =>
        by_cases htrusted : trusts anchors target row.thumbprint = true
        · simp [htrusted]
        · have hstays := h id hid row hfind (by simpa using htrusted)
          by_cases hexpired : row.notAfter ≤ before
          · simp [htrusted, hexpired, Nat.le_trans hexpired hle]
          · have hlater : ¬ row.notAfter ≤ now := fun hnow => hstays ⟨by omega, hnow⟩
            simp [htrusted, hexpired, hlater]
    have hcopied : ∀ id ∈ ids, (judge anchors source target before id).copied =
        (judge anchors source target now id).copied := fun id hid => by rw [hjudge id hid]
    have hskipped : ∀ id ∈ ids, (judge anchors source target before id).skipped id =
        (judge anchors source target now id).skipped id := fun id hid => by rw [hjudge id hid]
    unfold plan
    rw [List.filterMap_congr hcopied, List.filterMap_congr hskipped]

end

/-! ### Steps -/

structure Standing (s : Store) : Prop where
  distinct : Distinct s.anchors
  shown : ∀ shown ∈ s.shown, shown.at_ ≤ s.now ∧
    shown.plan = plan s.anchors shown.source shown.target shown.at_ shown.ids

variable {request : Request}

section
variable {cfg : Config} {s next : Store}

theorem distinct_remove (hdistinct : Distinct s.anchors) (id : Nat) : Distinct (remove s id).2 := by
  have hleft : ∀ anchors : List TrustAnchor,
      (anchors.map fun a => if a.id = id then { a with removedAt := some s.now } else a).filter
        (·.removedAt.isNone) = (anchors.filter (·.removedAt.isNone)).filter fun a => decide (a.id ≠ id) := by
    intro anchors
    induction anchors with
    | nil => rfl
    | cons a anchors ih =>
      rw [List.map_cons]
      by_cases hid : a.id = id
      · by_cases hlive : a.removedAt.isNone = true
        · simp [hid, hlive, ih]
        · simp [hid, hlive, ih]
      · by_cases hlive : a.removedAt.isNone = true
        · simp [hid, hlive, ih]
        · simp [hid, hlive, ih]
  unfold remove
  cases s.anchors.find? (·.id == id) with
  | none => exact hdistinct
  | some row =>
    simp only
    split
    · exact hdistinct
    · unfold Distinct
      rw [hleft]
      exact hdistinct.filter _

theorem request_eq_some (h : step cfg s (.request request) = some next) :
    next.anchors = (respond cfg s request).2 ∧ next.now = s.now ∧
      next.shown = stillShown s request (respond cfg s request).1 (respond cfg s request).2 := by
  obtain rfl := Option.some.inj h
  exact ⟨rfl, rfl, rfl⟩

theorem dryRun_of_copyFrom {source target : Environment} {dryRun : Bool} {planned : Plan}
    (h : (copyFrom cfg s source target ids dryRun).1 = .dryRun planned) :
    planned = plan s.anchors source target s.now ids := by
  unfold copyFrom at h
  split at h; · cases h
  split at h; · cases h
  split at h; · cases h
  split at h; · cases h
  simp only at h
  split at h
  · injection h with heq
    exact heq.symm
  · split at h
    · cases h
    · split at h
      · cases h
      · cases h

theorem mem_stillShown {response : Response} {anchors : List TrustAnchor} {shown : Shown}
    (h : shown ∈ stillShown s request response anchors) : anchors = s.anchors ∧
      (shown ∈ s.shown ∨ ∃ source target ids dryRun planned,
        request = .copyFrom source target ids dryRun ∧ response = .dryRun planned ∧
          shown = ⟨source, target, ids, s.now, planned⟩) := by
  unfold stillShown at h
  split at h
  · cases h
  · rename_i hsame
    refine ⟨not_not.mp hsame, ?_⟩
    split at h
    · cases List.mem_append.mp h with
      | inl hold => exact .inl hold
      | inr hnew => exact .inr ⟨_, _, _, _, _, rfl, rfl, List.mem_singleton.mp hnew⟩
    · exact .inl h

theorem standing_step {e : Event} (hs : Standing s) (h : step cfg s e = some next)
    (hpromised : Promised cfg s e next) : Standing next := by
  refine ⟨hpromised.distinct, ?_⟩
  cases e with
  | pass ms =>
    obtain rfl := Option.some.inj h
    intro shown hshown
    obtain ⟨hbefore, hplan⟩ := hs.shown shown hshown
    exact ⟨Nat.le_add_right_of_le hbefore, hplan⟩
  | request request =>
    obtain ⟨hanchors, hnow, hshown⟩ := request_eq_some h
    intro shown hin
    rw [hshown] at hin
    obtain ⟨hsame, hcases⟩ := mem_stillShown hin
    rw [hanchors, hnow, hsame]
    cases hcases with
    | inl hold => exact hs.shown shown hold
    | inr hnew =>
      obtain ⟨source, target, ids, dryRun, planned, rfl, hresponse, rfl⟩ := hnew
      exact ⟨Nat.le_refl _, dryRun_of_copyFrom hresponse⟩

theorem promised_of_refused (hs : Standing s) {reason : Refusal}
    (h : step cfg s (.request request) = some next)
    (hrefused : respond cfg s request = (.refused reason, s.anchors)) :
    Promised cfg s (.request request) next := by
  obtain ⟨hanchors, -, -⟩ := request_eq_some h
  rw [hrefused] at hanchors
  have hnext : next.anchors = s.anchors := hanchors
  refine ⟨hnext ▸ hs.distinct, fun request' heq => ?_⟩
  cases heq
  rw [hrefused]
  exact hnext

/-! ### Registrations -/

structure Registers (cfg : Config) (s : Store) (environment : Environment) (name pem : String)
    (parsed : Parsed) : Prop where
  known : cfg.promotionChain.contains environment = true
  named : isAnchorName name = true
  certificate : cfg.parseAnchor pem = .ok parsed
  room : hasRoom cfg s.anchors environment 1 = true
  new : trusts s.anchors environment parsed.thumbprint = false

theorem register_cases (environment : Environment) (name pem : String) :
    ((∀ parsed, ¬ Registers cfg s environment name pem parsed) ∧
        ∃ reason, register cfg s environment name pem = (.refused reason, s.anchors)) ∨
      ∃ parsed, Registers cfg s environment name pem parsed ∧
        register cfg s environment name pem = (.registered s.nextId, s.anchors ++
          [⟨s.nextId, environment, name, parsed.thumbprint, parsed.certPem, parsed.notAfter, none⟩]) := by
  unfold register
  by_cases henvironment : cfg.promotionChain.contains environment = true
  · by_cases hname : isAnchorName name = true
    · cases hparse : cfg.parseAnchor pem with
      | error message =>
        refine .inl ⟨fun parsed h => ?_, .badCertificate message, by simp [hname, List.contains_iff_mem.mp henvironment]⟩
        have hok := h.certificate
        rw [hparse] at hok
        cases hok
      | ok parsed =>
        by_cases hroom : hasRoom cfg s.anchors environment 1 = true
        · cases hnew : trusts s.anchors environment parsed.thumbprint with
          | true =>
            refine .inl ⟨fun parsed' h => ?_, .duplicate environment, ?_⟩
            · obtain rfl := Except.ok.inj (hparse.symm.trans h.certificate)
              rw [h.new] at hnew
              cases hnew
            · simp [hname, List.contains_iff_mem.mp henvironment, hroom, insertAnchor, hnew]
          | false =>
            refine .inr ⟨parsed, ⟨henvironment, hname, hparse, hroom, hnew⟩, ?_⟩
            simp [hname, List.contains_iff_mem.mp henvironment, hroom, insertAnchor, hnew]
        · refine .inl ⟨fun parsed' h => hroom h.room, .noRoom environment, ?_⟩
          simp [hname, List.contains_iff_mem.mp henvironment, hroom]
    · refine .inl ⟨fun parsed h => hname h.named, .badName, ?_⟩
      simp [hname, List.contains_iff_mem.mp henvironment]
  · refine .inl ⟨fun parsed h => henvironment h.known, .unknownEnvironment environment, ?_⟩
    rw [if_pos (by simpa using henvironment)]

theorem promised_register_iff (hs : Standing s) {name pem : String}
    (h : step cfg s (.request (.register environment name pem)) = some next) :
    Promised cfg s (.request (.register environment name pem)) next ↔
      Meets cfg s (.request (.register environment name pem)) := by
  rcases @register_cases cfg s environment name pem with ⟨hnot, reason, hrefused⟩ |
    ⟨parsed, hregisters, haccepted⟩
  · refine iff_of_true (promised_of_refused hs h hrefused) ?_
    intro henvironment hname parsed hparse hroom hnew
    exact absurd ⟨henvironment, hname, hparse, hroom, hnew⟩ (hnot parsed)
  · obtain ⟨hanchors, -, -⟩ := request_eq_some h
    have hnext : next.anchors = s.anchors ++
        [⟨s.nextId, environment, name, parsed.thumbprint, parsed.certPem, parsed.notAfter, none⟩] :=
      hanchors.trans (congrArg Prod.snd haccepted)
    have hdistinct : Distinct (s.anchors ++
        [⟨s.nextId, environment, name, parsed.thumbprint, parsed.certPem, parsed.notAfter, none⟩]) ↔
          Distinct s.anchors ∧ ∀ a ∈ liveIn s.anchors environment,
            a.thumbprint ≠ parsed.thumbprint ∧ a.name ≠ name := distinct_append rfl
    rw [← hnext] at hdistinct
    constructor
    · intro hpromised _ _ parsed' hparse _ _ a ha
      exact ((hdistinct.mp hpromised.distinct).2 a ha).2
    · intro hmeets
      have hfree := hmeets hregisters.known hregisters.named parsed hregisters.certificate
        hregisters.room hregisters.new
      refine ⟨hdistinct.mpr ⟨hs.distinct, fun a ha => ⟨?_, hfree a ha⟩⟩, fun request heq => ?_⟩
      · exact trusts_eq_false.mp hregisters.new a ha
      · cases heq
        rw [show respond cfg s (.register environment name pem) = _ from haccepted]
        trivial

/-! ### Copies -/

structure Copies (cfg : Config) (s : Store) (source target : Environment) (ids : List Nat) : Prop where
  sourceKnown : cfg.promotionChain.contains source = true
  targetKnown : cfg.promotionChain.contains target = true
  apart : source ≠ target
  named : ids ≠ []
  room : hasRoom cfg s.anchors target (plan s.anchors source target s.now ids).copy.length = true

theorem copyFrom_cases (source target : Environment) (ids : List Nat) :
    ((Copies cfg s source target ids →
          apply target s.now s.anchors s.nextId (plan s.anchors source target s.now ids).copy = none) ∧
        ∃ reason, copyFrom cfg s source target ids false = (.refused reason, s.anchors)) ∨
      ∃ anchors, Copies cfg s source target ids ∧
        apply target s.now s.anchors s.nextId (plan s.anchors source target s.now ids).copy =
          some anchors ∧
        copyFrom cfg s source target ids false = (.copied (plan s.anchors source target s.now ids)
          (List.range' s.nextId (plan s.anchors source target s.now ids).copy.length), anchors) := by
  unfold copyFrom
  by_cases hsource : cfg.promotionChain.contains source = true
  case neg =>
    refine .inl ⟨fun h => absurd h.sourceKnown hsource, .unknownEnvironment source, ?_⟩
    rw [if_pos (by simpa using hsource)]
  by_cases htarget : cfg.promotionChain.contains target = true
  case neg =>
    refine .inl ⟨fun h => absurd h.targetKnown htarget, .unknownEnvironment target, ?_⟩
    rw [if_neg (by simpa using hsource), if_pos (by simpa using htarget)]
  rw [if_neg (by simpa using hsource), if_neg (by simpa using htarget)]
  by_cases hsame : source = target
  · refine .inl ⟨fun h => absurd hsame h.apart, .sameEnvironment, ?_⟩
    rw [if_pos hsame]
  by_cases hids : ids = []
  · refine .inl ⟨fun h => absurd hids h.named, .noIds, ?_⟩
    rw [if_neg hsame, if_pos hids]
  rw [if_neg hsame, if_neg hids]
  by_cases hroom : hasRoom cfg s.anchors target
      (plan s.anchors source target s.now ids).copy.length = true
  case neg =>
    refine .inl ⟨fun h => absurd h.room hroom, .noRoom target, ?_⟩
    simp [hroom]
  have hcopies : Copies cfg s source target ids := ⟨hsource, htarget, hsame, hids, hroom⟩
  cases happly : apply target s.now s.anchors s.nextId (plan s.anchors source target s.now ids).copy with
  | none =>
    refine .inl ⟨fun _ => rfl, .uniqueFailed, ?_⟩
    simp [hroom, happly]
  | some anchors =>
    refine .inr ⟨anchors, hcopies, rfl, ?_⟩
    simp [hroom, happly]

theorem promised_dryRun (hs : Standing s) {source target : Environment}
    (h : step cfg s (.request (.copyFrom source target ids true)) = some next) :
    Promised cfg s (.request (.copyFrom source target ids true)) next := by
  have hdry : (∃ reason, copyFrom cfg s source target ids true = (.refused reason, s.anchors)) ∨
      copyFrom cfg s source target ids true =
        (.dryRun (plan s.anchors source target s.now ids), s.anchors) := by
    unfold copyFrom
    split; · exact .inl ⟨_, rfl⟩
    split; · exact .inl ⟨_, rfl⟩
    split; · exact .inl ⟨_, rfl⟩
    split; · exact .inl ⟨_, rfl⟩
    exact .inr rfl
  rcases hdry with ⟨reason, hrefused⟩ | hshown
  · exact promised_of_refused hs h hrefused
  · obtain ⟨hanchors, -, -⟩ := request_eq_some h
    have hnext : next.anchors = s.anchors := hanchors.trans (congrArg Prod.snd hshown)
    refine ⟨hnext ▸ hs.distinct, fun request heq => ?_⟩
    cases heq
    rw [show respond cfg s (.copyFrom source target ids true) = _ from hshown]
    exact hnext

theorem promised_copy_iff (hs : Standing s) {source target : Environment}
    (h : step cfg s (.request (.copyFrom source target ids false)) = some next) :
    Promised cfg s (.request (.copyFrom source target ids false)) next ↔
      Meets cfg s (.request (.copyFrom source target ids false)) := by
  have hrows : ids.filterMap (due s.anchors source target s.now) =
      (plan s.anchors source target s.now ids).copy := (plan_copy s.now ids).symm
  have hnodup : (apply target s.now s.anchors s.nextId
      (plan s.anchors source target s.now ids).copy).isSome ↔
        ((plan s.anchors source target s.now ids).copy.map (·.thumbprint)).Nodup :=
    apply_isSome_iff new_of_plan
  rcases @copyFrom_cases cfg s source target ids with ⟨hnone, reason, hrefused⟩ |
    ⟨anchors, hcopies, happly, hcopied⟩
  · refine iff_of_true (promised_of_refused hs h hrefused) ?_
    intro hsource htarget happart hids hroom hdistinct
    rw [hrows] at hroom hdistinct
    have hsome := hnodup.mpr hdistinct
    rw [hnone ⟨hsource, htarget, happart, hids, hroom⟩] at hsome
    cases hsome
  · obtain ⟨hanchors, -, -⟩ := request_eq_some h
    have hnext : next.anchors = anchors := hanchors.trans (congrArg Prod.snd hcopied)
    have hspares := distinct_apply hs.distinct happly
    rw [← hnext] at hspares
    have hthumbprints := hnodup.mp (by rw [happly]; rfl)
    obtain ⟨created, hcreated, hids, hcopiesOf⟩ := apply_eq_some happly
    have hexpiry : (∀ shown ∈ s.shown, shown.source = source → shown.target = target → shown.ids = ids →
        shown.plan = plan s.anchors source target s.now ids) ↔
        ∀ shown ∈ s.shown, shown.source = source → shown.target = target → shown.ids = ids →
          ∀ id ∈ ids, ∀ row, (liveIn s.anchors source).find? (·.id == id) = some row →
            trusts s.anchors target row.thumbprint = false →
              ¬ (shown.at_ < row.notAfter ∧ row.notAfter ≤ s.now) := by
      refine forall₂_congr fun shown hshown => ?_
      obtain ⟨hbefore, hplan⟩ := hs.shown shown hshown
      constructor
      · rintro heq rfl rfl rfl
        have hsame := heq rfl rfl rfl
        rw [hplan] at hsame
        exact (plan_eq_iff hbefore _).mp hsame
      · rintro hstays rfl rfl rfl
        rw [hplan]
        exact (plan_eq_iff hbefore _).mpr (hstays rfl rfl rfl)
    have hanswered : Answered s next (.copyFrom source target ids false)
        (.copied (plan s.anchors source target s.now ids)
          (List.range' s.nextId (plan s.anchors source target s.now ids).copy.length)) ↔
        ∀ shown ∈ s.shown, shown.source = source → shown.target = target → shown.ids = ids →
          shown.plan = plan s.anchors source target s.now ids := by
      constructor
      · rintro ⟨-, hlists⟩ shown hshown rfl rfl rfl
        exact hlists shown hshown false rfl
      · intro hlists
        refine ⟨⟨created, hnext.trans hcreated, hids.symm, hcopiesOf⟩, ?_⟩
        intro shown hshown dryRun heq
        injection heq with hsource htarget hsameIds _
        exact hlists shown hshown hsource.symm htarget.symm hsameIds.symm
    constructor
    · intro hpromised
      have hsaid := hpromised.answered _ rfl
      rw [show respond cfg s (.copyFrom source target ids false) = _ from hcopied] at hsaid
      intro _ _ _ _ _ _
      rw [hrows]
      exact ⟨hspares.mp hpromised.distinct, hexpiry.mp (hanswered.mp hsaid)⟩
    · intro hmeets
      have hboth := hmeets hcopies.sourceKnown hcopies.targetKnown hcopies.apart hcopies.named
      simp only [hrows] at hboth
      obtain ⟨hnames, hstays⟩ := hboth hcopies.room hthumbprints
      refine ⟨hspares.mpr hnames, fun request heq => ?_⟩
      cases heq
      rw [show respond cfg s (.copyFrom source target ids false) = _ from hcopied]
      exact hanswered.mpr (hexpiry.mpr hstays)

theorem promised_iff {e : Event} (hs : Standing s) (h : step cfg s e = some next) :
    Promised cfg s e next ↔ Meets cfg s e := by
  cases e with
  | pass ms =>
    obtain rfl := Option.some.inj h
    exact iff_of_true ⟨hs.distinct, fun _ heq => by cases heq⟩ trivial
  | request request =>
    cases request with
    | register environment name pem => exact promised_register_iff hs h
    | copyFrom source target ids dryRun =>
      cases dryRun with
      | true => exact iff_of_true (promised_dryRun hs h) trivial
      | false => exact promised_copy_iff hs h
    | remove id =>
      obtain ⟨hanchors, -, -⟩ := request_eq_some h
      have hdistinct := distinct_remove hs.distinct id
      rw [show (remove s id).2 = next.anchors from hanchors.symm] at hdistinct
      refine iff_of_true ⟨hdistinct, fun request heq => ?_⟩ trivial
      cases heq
      have hcases : (∃ reason, remove s id = (.refused reason, s.anchors)) ∨ (remove s id).1 = .removed := by
        unfold remove
        split
        · exact .inl ⟨_, rfl⟩
        · split
          · exact .inr rfl
          · exact .inr rfl
      rcases hcases with ⟨reason, hrefused⟩ | hremoved
      · rw [show respond cfg s (.remove id) = _ from hrefused]
        exact hanchors.trans (congrArg Prod.snd hrefused)
      · rw [show (respond cfg s (.remove id)).1 = .removed from hremoved]
        trivial

end

theorem anchors_along_runs_iff (cfg : Config) (now : Nat) (events : List Event) :
    Trace.EveryStep (step cfg) (Promised cfg) (.empty now) events ↔
      Trace.EveryStep (step cfg) (fun s e _ => Meets cfg s e) (.empty now) events := by
  have hempty : Standing (.empty now) := ⟨List.Pairwise.nil, nofun⟩
  have hkeeps : ∀ s e next, Standing s → step cfg s e = some next → Promised cfg s e next → Standing next :=
    fun _ _ _ hs h hpromised => standing_step hs h hpromised
  have hagree : ∀ s e next, Standing s → step cfg s e = some next →
      (Promised cfg s e next ↔ Meets cfg s e) := fun _ _ _ hs h => promised_iff hs h
  exact Trace.everyStep_congr_of_kept hkeeps hagree hempty events

/-! ### Names that meet -/

instance (anchors : List TrustAnchor) : Decidable (Distinct anchors) := by
  unfold Distinct
  infer_instance

def twoStages : Config where
  promotionChain := ["dev", "test"]
  maxTrustAnchors := 10
  parseAnchor pem := .ok ⟨pem, pem, 2000⟩

def twoRoots : List Event := [.request (.register "dev" "corp-root" "first")]

def clashes (_ next : Store) : Bool := !decide (Distinct next.anchors)

theorem not_promised_of_clashes {e : Event} (s next : Store) (h : clashes s next = true) :
    ¬ Promised twoStages s e next := by
  intro hpromised
  simp [clashes, hpromised.distinct] at h

theorem names_repeat :
    ¬ Trace.EveryStep (step twoStages) (Promised twoStages) (.empty 1000)
        (twoRoots ++ [.request (.register "dev" "corp-root" "second")]) := by
  have hseen : ((Trace.exec (step twoStages) (.empty 1000) twoRoots).bind fun s =>
      (step twoStages s (.request (.register "dev" "corp-root" "second"))).map (clashes s)) =
        some true := by decide +kernel
  exact Trace.not_everyStep_of_observed clashes not_promised_of_clashes hseen

end Apim.TrustAnchors
