import Apim.Lib.Overlay

/-!
# Which operation a request is

The operation of a REST route, by method and template (`shared/opmatch.ts`). The templates are
compiled once, and a request is compared with the candidates of its own number of segments in the
order of their declaration.
-/

namespace Apim.Opmatch

open Apim.Overlay

def segmentsOf (path : String) : List String :=
  ((path.toList.splitOn '/').filter (· ≠ [])).map String.ofList

def paramOf (segment : String) : Option String :=
  if 2 < segment.length ∧ segment.toList.head? = some '{' ∧ segment.toList.getLast? = some '}' then
    some (String.ofList (segment.toList.drop 1).dropLast)
  else none

structure CompiledOperation (α : Type*) where
  operation : α
  method : String
  segments : List String
  params : List (Option String)
  score : Nat

section
variable {α : Type*} (method template : α → String) (toUpperCase : String → String)

/-- `compileOperations` (`shared/opmatch.ts:69-90`), before it sorts the candidates by arity. -/
def compileOperation (operation : α) : CompiledOperation α :=
  let segments := segmentsOf (template operation)
  let params := segments.map paramOf
  { operation := operation
    method := toUpperCase (method operation)
    segments := segments
    params := params
    score := (params.filter (· = none)).length * 2 + 1 }

def compileOperations (operations : List α) : List (CompiledOperation α) :=
  operations.map (compileOperation method template toUpperCase)

end

section
variable {α : Type*}

def CompiledOperation.agrees (candidate : CompiledOperation α) (parts : List String) : Bool :=
  ((candidate.params.zip candidate.segments).zip parts).all fun ((param, segment), part) =>
    param.isSome || segment == part

def CompiledOperation.serves (candidate : CompiledOperation α) (wanted : String) : Bool :=
  candidate.method == wanted || (wanted == "HEAD" && candidate.method == "GET")

def CompiledOperation.scoreFor (candidate : CompiledOperation α) (wanted : String) : Nat :=
  if candidate.method = wanted then candidate.score else candidate.score - 1

def better (wanted : String) (parts : List String) (best : Option (CompiledOperation α × Nat))
    (candidate : CompiledOperation α) : Option (CompiledOperation α × Nat) :=
  if candidate.serves wanted then
    if best.any (candidate.scoreFor wanted ≤ ·.2) then best
    else if candidate.agrees parts then some (candidate, candidate.scoreFor wanted)
    else best
  else best

/-- `params[name] = value`: the ordinary object `params` takes no text as its `__proto__`. -/
def setParam (params : Dict String String) (name value : String) : Dict String String :=
  if name = "__proto__" then params else params.insert name value

def paramsFrom (decode : String → String) (candidate : CompiledOperation α) (parts : List String) :
    Dict String String :=
  (candidate.params.zip parts).foldl
    (fun params (param, part) =>
      match param with
      | some name => setParam params name (decode part)
      | none => params) ∅

/-- `matchCompiled` (`shared/opmatch.ts:101-143`). -/
def matchCompiled (toUpperCase decode : String → String) (compiled : List (CompiledOperation α))
    (method relativePath : String) : Option (α × Dict String String) :=
  let wanted := toUpperCase method
  let parts := segmentsOf relativePath
  let candidates := compiled.filter fun candidate => candidate.segments.length == parts.length
  match candidates.foldl (better wanted parts) none with
  | some (best, _) => some (best.operation, paramsFrom decode best parts)
  | none => none

theorem mem_of_foldl_better {wanted : String} {parts : List String}
    {candidates : List (CompiledOperation α)} {best : Option (CompiledOperation α × Nat)}
    {winner : CompiledOperation α} {score : Nat}
    (h : candidates.foldl (better wanted parts) best = some (winner, score)) :
    best = some (winner, score) ∨
      winner ∈ candidates ∧ winner.serves wanted = true ∧ winner.agrees parts = true := by
  induction candidates generalizing best with
  | nil => exact .inl h
  | cons candidate candidates ih =>
    rw [List.foldl_cons] at h
    rcases ih h with hbest | ⟨hmem, hserved⟩
    · unfold better at hbest
      split at hbest
      · rename_i hserves
        split at hbest
        · exact .inl hbest
        · split at hbest
          · rename_i hagrees
            cases hbest
            exact .inr ⟨List.mem_cons_self, hserves, hagrees⟩
          · exact .inl hbest
      · exact .inl hbest
    · exact .inr ⟨List.mem_cons_of_mem _ hmem, hserved⟩

theorem of_matchCompiled {toUpperCase decode : String → String}
    {compiled : List (CompiledOperation α)} {method relativePath : String} {operation : α}
    {params : Dict String String}
    (h : matchCompiled toUpperCase decode compiled method relativePath = some (operation, params)) :
    ∃ candidate ∈ compiled, candidate.operation = operation ∧
      candidate.serves (toUpperCase method) = true ∧
      candidate.segments.length = (segmentsOf relativePath).length ∧
      candidate.agrees (segmentsOf relativePath) = true := by
  unfold matchCompiled at h
  dsimp only at h
  split at h
  · rename_i winner score hbest
    cases h
    rcases mem_of_foldl_better hbest with hnone | ⟨hmem, hserves, hagrees⟩
    · cases hnone
    · obtain ⟨hcompiled, hlength⟩ := List.mem_filter.mp hmem
      exact ⟨winner, hcompiled, rfl, hserves, eq_of_beq hlength, hagrees⟩
  · cases h

end

end Apim.Opmatch
