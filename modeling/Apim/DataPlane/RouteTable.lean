import Apim.DataPlane.Forward
import Apim.Shared.Letters
import Apim.Shared.Trimming
import Mathlib.Data.List.MinMax

/-!
# The table of routes

Which route a request goes to and the URL it is sent on with
(`data-plane/src/route-table.ts:84-141`, `shared/routing.ts:24-91`). The table is sorted by the length
of the base paths, and `matchRoute` goes through it once. What is asked of it is stated without an
order: a longest base path among those that cover the path, under the request's host if there is one.
Reading a URL is a parameter.
-/

namespace Apim.DataPlane.RouteTable

open Routing Letters

/-- The order of the table (`data-plane/src/route-table.ts:84-85`). -/
def sorted (routes : List ConfigRoute) : List ConfigRoute :=
  routes.mergeSort fun a b => decide (utf16Length b.basePath.toList ≤ utf16Length a.basePath.toList)

structure BackendUrl where
  origin : String
  pathname : String

/-- `joinBackend` (`shared/routing.ts:86-91`). -/
def joinBackend (parse : String → Option BackendUrl) (backendUrl path query : String) : Option String :=
  (parse backendUrl).map fun base =>
    let basePath := String.ofList (base.pathname.toList.rdropWhile (· == '/'))
    let suffix := if startsWith path "/" then path else "/" ++ path
    base.origin ++ basePath ++ suffix ++ query

/-! ### What is asked of it -/

inductive Port : List Char → Prop
  | absent : Port []
  | given (digits : List Char) (h : ∀ c ∈ digits, c.isDigit = true) : Port (':' :: digits)

/-- A literal in brackets, or a name. -/
def HostName (name : List Char) : Prop :=
  (∃ inner, name = '[' :: inner ++ [']'] ∧ ∀ c ∈ inner, c ≠ ']' ∧ c ≠ '*') ∨
    ∀ c ∈ name, c ≠ ':' ∧ c ≠ '[' ∧ c ≠ '*' ∧ isSpace c = false

/-- The header has the name, with blanks around it and a port behind it; no header has none. -/
def Spelled (hostHeader : Option String) (name : List Char) : Prop :=
  HostName name ∧
    match hostHeader with
    | none => name = []
    | some text => ∃ front port back, text.toList = front ++ (name ++ port) ++ back ∧ Port port ∧
        (∀ c ∈ front, isSpace c = true) ∧ ∀ c ∈ back, isSpace c = true

def canonical (name : List Char) : List Char :=
  let lower := name.map Char.toLower
  if lower.getLast? = some '.' then lower.dropLast else lower

def Named (name : List Char) (route : ConfigRoute) : Prop :=
  canonical route.host.toList = canonical name

/-- The path is the base path and, behind a slash, the rest. -/
def Under (basePath path : String) (rest : List Char) : Prop :=
  if basePath = "/" then path.toList = '/' :: rest
  else path.toList = basePath.toList ++ '/' :: rest ∨ path = basePath ∧ rest = []

def Covers (path : String) (route : ConfigRoute) : Prop :=
  route.basePath = "/" ∨ ∃ rest, Under route.basePath path rest

def Longest (routes : List ConfigRoute) (P : ConfigRoute → Prop) (route : ConfigRoute) : Prop :=
  route ∈ routes ∧ P route ∧
    ∀ other ∈ routes, P other → utf16Length other.basePath.toList ≤ utf16Length route.basePath.toList

/-- The routes of the request's host that cover the path, and the wildcard ones. -/
def Exact (name : List Char) (path : String) (route : ConfigRoute) : Prop :=
  Covers path route ∧ Named name route

def Wildcard (path : String) (route : ConfigRoute) : Prop := Covers path route ∧ route.host = "*"

def MostSpecific (routes : List ConfigRoute) (name : List Char) (path : String) :
    Option ConfigRoute → Prop
  | some route => Longest routes (Exact name path) route ∨
      (∀ other ∈ routes, ¬ Exact name path other) ∧ Longest routes (Wildcard path) route
  | none => ∀ other ∈ routes, ¬ Exact name path other ∧ ¬ Wildcard path other

/-- The URL a request is sent on with: the backend's own path and the rest, one slash between. -/
def Joined (parse : String → Option BackendUrl) (basePath path backendUrl query : String) : Prop :=
  ∀ rest own slashes url, Under basePath path rest → parse backendUrl = some url →
    url.pathname.toList = own ++ slashes → (∀ c ∈ slashes, c = '/') → own.getLast? ≠ some '/' →
    joinBackend parse backendUrl (stripBasePath path basePath) query =
      some (url.origin ++ String.ofList own ++ String.ofList ('/' :: rest) ++ query)

def Normal (input : String) : Prop :=
  (normalizeBasePath (normalizeBasePath input).1).1 = (normalizeBasePath input).1 ∧
    ((normalizeBasePath input).2 = [] →
      pathMatchesBase (normalizeBasePath input).1 (normalizeBasePath input).1 = true)

structure Right (parse : String → Option BackendUrl) (routes : List ConfigRoute)
    (hostHeader : Option String) (name : List Char) (path backendUrl query input : String) : Prop where
  specific : MostSpecific routes name path (matchRoute (sorted routes) hostHeader path)
  joined : ∀ route ∈ matchRoute (sorted routes) hostHeader path,
    Joined parse route.basePath path backendUrl query
  normal : Normal input

/-- Of the longest routes of the request's host, one is written as the request has it in lower case. -/
def WrittenAlike (routes : List ConfigRoute) (name : List Char) (path : String) : Prop :=
  ∀ route, Longest routes (Exact name path) route →
    ∃ other, Longest routes (Exact name path) other ∧ other.host.toList = name.map Char.toLower

/-- A blank before the slashes that the text ends in. -/
def BlankBeforeSlashes (input : String) : Prop :=
  ∃ front c slashes, trim input.toList = front ++ c :: slashes ∧ isSpace c = true ∧
    ∀ d ∈ slashes, d = '/'

/-! ### The host of a request -/

theorem eq_of_toLower {c mark : Char} (hmark : mark.isLower = false) (h : c.toLower = mark) : c = mark :=
  ((toLower_eq_iff hmark).mp h).1

variable {name : List Char}

theorem mem_lower {mark : Char} (hmark : mark.isLower = false) (h : mark ∈ name.map Char.toLower) :
    mark ∈ name := by
  obtain ⟨c, hc, hlower⟩ := List.mem_map.mp h
  rwa [← eq_of_toLower hmark hlower]

theorem bare_spelled {port : List Char} (hname : HostName name) (hport : Port port) :
    Bare (name ++ port) := by
  have hdigit : ∀ c : Char, c.isDigit = true → isSpace c = false := by
    intro c hc
    simp only [Char.isDigit, Bool.and_eq_true, decide_eq_true_eq, UInt32.le_iff_toNat_le] at hc
    have hval : c.toNat = c.val.toNat := rfl
    simp only [isSpace, hval]
    have hlow : 48 ≤ c.val.toNat := hc.1
    have hhigh : c.val.toNat ≤ 57 := hc.2
    simp only [Bool.or_eq_false_iff, Bool.and_eq_false_iff, decide_eq_false_iff_not, beq_eq_false_iff_ne]
    omega
  have hportBare : ∀ c ∈ port.getLast?, isSpace c = false := by
    intro c hc
    cases hport with
    | absent => cases hc
    | given digits hdigits =>
      obtain hcolon | hin := List.mem_cons.mp (List.mem_of_getLast? hc)
      · subst hcolon
        decide
      · exact hdigit c (hdigits c hin)
  constructor
  · intro c hc
    cases name with
    | nil =>
      cases hport with
      | absent => cases hc
      | given digits hdigits =>
        cases hc
        decide
    | cons d rest =>
      cases hc
      obtain ⟨inner, heq, -⟩ | hplain := hname
      · obtain rfl : c = '[' := (List.cons.inj heq).1
        decide
      · exact (hplain c List.mem_cons_self).2.2.2
  · intro c hc
    by_cases hnil : port = []
    · subst hnil
      rw [List.append_nil] at hc
      obtain ⟨inner, rfl, -⟩ | hplain := hname
      · rw [List.getLast?_concat] at hc
        cases hc
        decide
      · exact (hplain c (List.mem_of_getLast? hc)).2.2.2
    · rw [List.getLast?_append_of_ne_nil _ hnil] at hc
      exact hportBare c hc

theorem not_upper_of_digit {c : Char} (h : c.isDigit = true) : c.isUpper = false := by
  delta Char.isUpper
  simp only [Char.isDigit, Bool.and_eq_true, decide_eq_true_eq, ge_iff_le,
    UInt32.le_iff_toNat_le] at h ⊢
  have hhigh : c.val.toNat ≤ 57 := h.2
  refine decide_eq_false fun hcapital => ?_
  have hlow : 65 ≤ c.val.toNat := hcapital.1
  omega

theorem lower_port {port : List Char} (hport : Port port) : port.map Char.toLower = port := by
  cases hport with
  | absent => rfl
  | given digits hdigits =>
    rw [List.map_cons, List.map_congr_left (g := id)]
    · rw [List.map_id]
      rfl
    · exact fun c hc => toLower_of_not_isUpper (not_upper_of_digit (hdigits c hc))

theorem hostKey_literal {inner port : List Char} (hinner : ∀ c ∈ inner, c ≠ ']')
    {text : String} (htrim : (trim text.toList).map Char.toLower =
      ('[' :: inner ++ [']']).map Char.toLower ++ port) :
    hostKey (some text) = String.ofList (('[' :: inner ++ [']']).map Char.toLower) := by
  have hvalue : ('[' :: inner ++ [']']).map Char.toLower ++ port =
      ('[' :: inner.map Char.toLower) ++ ']' :: port := by
    simp only [List.cons_append, List.map_cons, List.map_append, List.map_nil, List.append_assoc]
    rfl
  have hclosed : ∀ c ∈ '[' :: inner.map Char.toLower, (c != ']') = true := by
    intro c hc
    obtain rfl | hc := List.mem_cons.mp hc
    · rfl
    · obtain ⟨d, hd, rfl⟩ := List.mem_map.mp hc
      exact bne_iff_ne.mpr fun heq => hinner d hd (eq_of_toLower (by decide) heq)
  have hhead : (('[' :: inner.map Char.toLower) ++ ']' :: port).head? = some '[' := rfl
  have hin : (('[' :: inner.map Char.toLower) ++ ']' :: port).contains ']' = true := by simp
  simp only [hostKey, Option.getD_some, htrim, hvalue]
  rw [if_pos hhead, if_pos hin, List.takeWhile_append_of_pos hclosed,
    List.takeWhile_cons_of_neg (by decide)]
  simp only [List.append_nil, List.cons_append, List.map_cons, List.map_append, List.map_nil]
  rfl

theorem hostKey_plain {port : List Char} (hname : ∀ c ∈ name, c ≠ ':' ∧ c ≠ '[')
    (hport : Port port) {text : String}
    (htrim : (trim text.toList).map Char.toLower = name.map Char.toLower ++ port) :
    hostKey (some text) = String.ofList (name.map Char.toLower) := by
  have hcolon : ':' ∉ name.map Char.toLower := fun hin => (hname _ (mem_lower (by decide) hin)).1 rfl
  have hhead : (name.map Char.toLower ++ port).head? ≠ some '[' := by
    intro hopen
    cases name with
    | nil =>
      cases hport with
      | absent => cases hopen
      | given digits hdigits => cases hopen
    | cons c rest =>
      have hc : c.toLower = '[' := Option.some.inj hopen
      exact (hname c List.mem_cons_self).2 (eq_of_toLower (by decide) hc)
  simp only [hostKey, Option.getD_some, htrim]
  rw [if_neg hhead]
  cases hport with
  | absent =>
    rw [List.append_nil, if_neg (by simpa using hcolon)]
  | given digits hdigits =>
    have hmarks : ∀ c ∈ digits.reverse, (c != ':') = true := by
      intro c hc
      have hdigit := hdigits c (List.mem_reverse.mp hc)
      exact bne_iff_ne.mpr fun heq => by rw [heq] at hdigit; cases hdigit
    rw [if_pos (by simp), List.reverse_append, List.reverse_cons, List.append_assoc,
      List.dropWhile_append_of_pos hmarks, List.singleton_append, List.dropWhile_cons_of_neg (by decide),
      List.drop_one, List.tail_cons, List.reverse_reverse]

/-- The name of the request in lower case. -/
theorem hostKey_spelled {hostHeader : Option String} (h : Spelled hostHeader name) :
    hostKey hostHeader = String.ofList (name.map Char.toLower) := by
  obtain ⟨hname, hheader⟩ := h
  cases hostHeader with
  | none =>
    obtain rfl : name = [] := hheader
    rfl
  | some text =>
    obtain ⟨front, port, back, htext, hport, hfront, hback⟩ := hheader
    have htrim : (trim text.toList).map Char.toLower = name.map Char.toLower ++ port := by
      rw [htext, trim_append_blanks _ hback, trim_blanks_append hfront,
        trim_of_bare (bare_spelled hname hport), List.map_append, lower_port hport]
    obtain ⟨inner, rfl, hinner⟩ | hplain := hname
    · exact hostKey_literal (fun c hc => (hinner c hc).1) htrim
    · exact hostKey_plain (fun c hc => ⟨(hplain c hc).1, (hplain c hc).2.1⟩) hport htrim

theorem lower_lower (name : List Char) :
    (name.map Char.toLower).map Char.toLower = name.map Char.toLower := by
  rw [List.map_map]
  exact List.map_congr_left fun c _ => toLower_of_not_isUpper (isUpper_toLower c)

variable {route : ConfigRoute}

theorem named_of_lower (h : route.host.toList = name.map Char.toLower) : Named name route := by
  simp only [Named, canonical, h, lower_lower]

theorem not_named_wildcard (hname : HostName name) (hhost : route.host = "*") :
    ¬ Named name route := by
  intro hnamed
  have hstar : canonical name = ['*'] := by
    rw [← hnamed, hhost]
    decide
  have hin : '*' ∈ name.map Char.toLower := by
    have hmem : '*' ∈ canonical name := by rw [hstar]; exact List.mem_singleton_self _
    simp only [canonical] at hmem
    split at hmem
    · exact List.mem_of_mem_dropLast hmem
    · exact hmem
  have hstarred := mem_lower (by decide) hin
  obtain ⟨inner, rfl, hinner⟩ | hplain := hname
  · simp only [List.cons_append, List.mem_cons, List.mem_append, List.not_mem_nil, or_false,
      Char.reduceEq, false_or] at hstarred
    exact (hinner _ hstarred).2 rfl
  · exact (hplain _ hstarred).2.2.1 rfl

/-! ### The route of a request -/

variable {path : String}

theorem startsWith_slash {basePath : String} : startsWith path (basePath ++ "/") = true ↔
    ∃ rest, path.toList = basePath.toList ++ '/' :: rest := by
  rw [startsWith, List.isPrefixOf_iff_prefix, String.toList_append]
  constructor
  · rintro ⟨rest, hrest⟩
    exact ⟨rest, by rw [← hrest, List.append_assoc]; rfl⟩
  · rintro ⟨rest, hrest⟩
    exact ⟨rest, by rw [hrest, List.append_assoc]; rfl⟩

theorem pathMatchesBase_iff : pathMatchesBase path route.basePath = true ↔ Covers path route := by
  rw [pathMatchesBase, Bool.or_eq_true, Bool.or_eq_true, beq_iff_eq, beq_iff_eq, startsWith_slash,
    Covers]
  by_cases hroot : route.basePath = "/"
  · simp [hroot]
  · simp only [hroot, false_or, Under, if_false]
    constructor
    · rintro (hsame | ⟨rest, hrest⟩)
      · exact ⟨[], .inr ⟨hsame, rfl⟩⟩
      · exact ⟨rest, .inl hrest⟩
    · rintro ⟨rest, hrest | ⟨hsame, -⟩⟩
      · exact .inr ⟨rest, hrest⟩
      · exact .inl hsame

variable {routes : List ConfigRoute}

theorem exists_longest {P : ConfigRoute → Prop} (hroute : route ∈ routes) (hP : P route) :
    ∃ best, Longest routes P best := by
  classical
  have hne : routes.filter (fun r => decide (P r)) ≠ [] :=
    List.ne_nil_of_mem (List.mem_filter.mpr ⟨hroute, decide_eq_true hP⟩)
  obtain ⟨best, hbest⟩ := Option.ne_none_iff_exists'.mp
    (mt List.argmax_eq_none.mp hne : (routes.filter fun r => decide (P r)).argmax
      (fun r => utf16Length r.basePath.toList) ≠ none)
  obtain ⟨hin, hholds⟩ := List.mem_filter.mp (List.argmax_mem hbest)
  refine ⟨best, hin, of_decide_eq_true hholds, fun other hother hPother => ?_⟩
  have hin' : other ∈ routes.filter fun r => decide (P r) :=
    List.mem_filter.mpr ⟨hother, decide_eq_true hPother⟩
  exact List.le_of_mem_argmax (f := fun r : ConfigRoute => utf16Length r.basePath.toList) hin' hbest

theorem longest_of_find {test : ConfigRoute → Bool}
    (h : ((sorted routes).filter fun r => pathMatchesBase path r.basePath).find? test = some route) :
    Longest routes (fun r => Covers path r ∧ test r = true) route := by
  have hsorted : (sorted routes).Pairwise fun a b =>
      decide (utf16Length b.basePath.toList ≤ utf16Length a.basePath.toList) = true :=
    List.pairwise_mergeSort (fun a b c hab hbc =>
      decide_eq_true ((of_decide_eq_true hbc).trans (of_decide_eq_true hab))) (fun a b => by
        rw [Bool.or_eq_true]
        exact (le_total _ _).imp decide_eq_true decide_eq_true) routes
  obtain ⟨htest, front, back, hsplit, hfront⟩ := List.find?_eq_some_iff_append.mp h
  have hunder : ∀ r, r ∈ front ++ route :: back ↔ r ∈ routes ∧ Covers path r := by
    intro r
    rw [← hsplit, List.mem_filter, sorted, List.mem_mergeSort, pathMatchesBase_iff]
  have hroute := (hunder route).mp (List.mem_append_right _ List.mem_cons_self)
  refine ⟨hroute.1, ⟨hroute.2, htest⟩, fun other hother hholds => ?_⟩
  have hpair := hsplit ▸ hsorted.filter _
  obtain hin | hin := List.mem_append.mp ((hunder other).mpr ⟨hother, hholds.1⟩)
  · have hnot := hfront other hin
    rw [hholds.2] at hnot
    cases hnot
  · obtain rfl | hin := List.mem_cons.mp hin
    · exact le_rfl
    · exact of_decide_eq_true (List.rel_of_pairwise_cons (List.pairwise_append.mp hpair).2.1 hin)

theorem none_of_find {test : ConfigRoute → Bool}
    (h : ((sorted routes).filter fun r => pathMatchesBase path r.basePath).find? test = none) :
    ∀ r ∈ routes, Covers path r → test r = false := by
  intro r hr hcovers
  have hin : r ∈ (sorted routes).filter fun r => pathMatchesBase path r.basePath := by
    rw [List.mem_filter, sorted, List.mem_mergeSort]
    exact ⟨hr, pathMatchesBase_iff.mpr hcovers⟩
  simpa using List.find?_eq_none.mp h r hin

theorem mostSpecific_iff {hostHeader : Option String} (hspelled : Spelled hostHeader name)
    (path : String) :
    MostSpecific routes name path (matchRoute (sorted routes) hostHeader path) ↔
      WrittenAlike routes name path := by
  have hkey := hostKey_spelled hspelled
  have hhost : ∀ r : ConfigRoute, (r.host == hostKey hostHeader) = true ↔
      r.host.toList = name.map Char.toLower := by
    intro r
    rw [beq_iff_eq, hkey]
    constructor
    · intro heq
      rw [heq, String.toList_ofList]
    · intro heq
      rw [← heq, String.ofList_toList]
  have hmatch : matchRoute (sorted routes) hostHeader path =
      (((sorted routes).filter fun r => pathMatchesBase path r.basePath).find?
        fun r => r.host == hostKey hostHeader).or
      (((sorted routes).filter fun r => pathMatchesBase path r.basePath).find?
        fun r => r.host == "*") := rfl
  rw [hmatch]
  cases hexact : ((sorted routes).filter fun r => pathMatchesBase path r.basePath).find?
      fun r => r.host == hostKey hostHeader with
  | some route =>
    obtain ⟨hin, ⟨hcovers, htest⟩, hlongest⟩ := longest_of_find hexact
    have hlower := (hhost route).mp htest
    rw [Option.some_or]
    constructor
    · rintro (hbest | ⟨hnone, -⟩)
      · exact fun _ _ => ⟨route, hbest, hlower⟩
      · exact absurd ⟨hcovers, named_of_lower hlower⟩ (hnone route hin)
    · intro hwritten
      obtain ⟨best, hbest⟩ := exists_longest (P := Exact name path) hin ⟨hcovers, named_of_lower hlower⟩
      obtain ⟨other, hother, hsame⟩ := hwritten best hbest
      refine .inl ⟨hin, ⟨hcovers, named_of_lower hlower⟩, fun r hr hexactly => ?_⟩
      exact (hother.2.2 r hr hexactly).trans
        (hlongest other hother.1 ⟨hother.2.1.1, (hhost other).mpr hsame⟩)
  | none =>
    have hnone := none_of_find hexact
    have hwritten : WrittenAlike routes name path ↔ ∀ r ∈ routes, ¬ Exact name path r := by
      constructor
      · intro hwritten r hr hexactly
        obtain ⟨best, hbest⟩ := exists_longest hr hexactly
        obtain ⟨other, hother, hsame⟩ := hwritten best hbest
        have hfalse := hnone other hother.1 hother.2.1.1
        rw [(hhost other).mpr hsame] at hfalse
        cases hfalse
      · exact fun hno route hroute => absurd hroute.2.1 (hno route hroute.1)
    rw [hwritten, Option.none_or]
    cases hwild : ((sorted routes).filter fun r => pathMatchesBase path r.basePath).find?
        fun r => r.host == "*" with
    | some route =>
      have hfound := longest_of_find hwild
      constructor
      · rintro (hbest | ⟨hno, -⟩)
        · exact absurd hbest.2.1.2 (not_named_wildcard hspelled.1 (beq_iff_eq.mp hfound.2.1.2))
        · exact hno
      · intro hno
        refine .inr ⟨hno, hfound.1, ⟨hfound.2.1.1, beq_iff_eq.mp hfound.2.1.2⟩, fun r hr hstar => ?_⟩
        exact hfound.2.2 r hr ⟨hstar.1, beq_iff_eq.mpr hstar.2⟩
    | none =>
      have hnostar := none_of_find hwild
      constructor
      · exact fun hno r hr => (hno r hr).1
      · intro hno r hr
        refine ⟨hno r hr, fun hstar => ?_⟩
        have hfalse := hnostar r hr hstar.1
        rw [beq_iff_eq.mpr hstar.2] at hfalse
        cases hfalse

/-! ### The URL of a request -/

theorem strip_under {basePath : String} {rest : List Char} (h : Under basePath path rest) :
    stripBasePath path basePath = String.ofList ('/' :: rest) := by
  unfold Under at h
  unfold stripBasePath
  split at h
  · next hroot => rw [if_pos hroot, ← h, String.ofList_toList]
  · next hroot =>
    rw [if_neg hroot]
    obtain hbelow | ⟨hsame, rfl⟩ := h
    · have hne : path ≠ basePath := by
        rintro rfl
        have hlength := congrArg List.length hbelow
        simp at hlength
      rw [if_neg hne, if_pos (startsWith_slash.mpr ⟨rest, hbelow⟩), hbelow, ← String.length_toList,
        List.drop_left]
    · rw [if_pos hsame]

theorem joined (parse : String → Option BackendUrl) (basePath path backendUrl query : String) :
    Joined parse basePath path backendUrl query := by
  intro rest own slashes url hunder hparse hpathname hslashes hown
  have hkept : url.pathname.toList.rdropWhile (· == '/') = own := by
    have hlast : own.rdropWhile (· == '/') = own := by
      rw [List.rdropWhile_eq_self_iff]
      intro hne hslash
      exact hown (by rw [List.getLast?_eq_some_getLast hne, beq_iff_eq.mp hslash])
    have hdropped : ∀ c ∈ slashes.reverse, (c == '/') = true := fun c hc =>
      beq_iff_eq.mpr (hslashes c (List.mem_reverse.mp hc))
    rw [hpathname, List.rdropWhile, List.reverse_append, List.dropWhile_append_of_pos hdropped]
    exact hlast
  have hstarts : startsWith (String.ofList ('/' :: rest)) "/" = true := by
    rw [startsWith, List.isPrefixOf_iff_prefix]
    exact ⟨rest, String.toList_ofList.symm⟩
  simp only [joinBackend, hparse, Option.map_some, hkept, strip_under hunder, hstarts, if_true]

/-! ### Normalising a base path -/

theorem basePath_eq (input : String) : (normalizeBasePath input).1 =
    String.ofList (stripTrailingSlashes (trim input.toList)) := by
  unfold normalizeBasePath
  split
  · next hempty =>
    rw [String.isEmpty_iff.mp hempty]
    rfl
  · rfl

theorem strip_cons (c : Char) (rest : List Char) :
    stripTrailingSlashes (c :: rest) = c :: rest.rdropWhile (· == '/') := rfl

theorem strip_strip (value : List Char) :
    stripTrailingSlashes (stripTrailingSlashes value) = stripTrailingSlashes value := by
  cases value with
  | nil => rfl
  | cons c rest => rw [strip_cons, strip_cons, List.rdropWhile_idempotent]

theorem length_strip (value : List Char) : (stripTrailingSlashes value).length ≤ value.length := by
  cases value with
  | nil => exact Nat.le_refl 0
  | cons c rest =>
    rw [strip_cons]
    exact Nat.succ_le_succ (List.rdropWhile_prefix _ _).length_le

theorem blankBeforeSlashes_iff (input : String) : BlankBeforeSlashes input ↔
    ∃ c ∈ (stripTrailingSlashes (trim input.toList)).getLast?, isSpace c = true := by
  have hbare := bare_trim input.toList
  constructor
  · rintro ⟨front, c, slashes, htrim, hspace, hslashes⟩
    refine ⟨c, ?_, hspace⟩
    cases front with
    | nil =>
      have hfirst := hbare.1 c (by rw [htrim]; rfl)
      rw [hspace] at hfirst
      cases hfirst
    | cons d front =>
      have hstripped : (front ++ c :: slashes).rdropWhile (· == '/') = front ++ [c] := by
        have hne : (c == '/') = false := beq_eq_false_iff_ne.mpr (by rintro rfl; cases hspace)
        rw [List.rdropWhile, List.reverse_append, List.reverse_cons, List.append_assoc,
          List.dropWhile_append_of_pos, List.singleton_append,
          List.dropWhile_cons_of_neg (by simp [hne])]
        · simp
        · exact fun e he => beq_iff_eq.mpr (hslashes e (List.mem_reverse.mp he))
      rw [htrim, List.cons_append, strip_cons, hstripped, ← List.cons_append, List.getLast?_concat]
      rfl
  · rintro ⟨c, hlast, hspace⟩
    cases htrim : trim input.toList with
    | nil =>
      rw [htrim] at hlast
      cases hlast
    | cons d rest =>
      rw [htrim, strip_cons] at hlast
      obtain ⟨front, hfront⟩ := List.getLast?_eq_some_iff.mp hlast
      refine ⟨front, c, (rest.reverse.takeWhile (· == '/')).reverse, ?_, hspace, fun e he => ?_⟩
      · have hsplit : rest.rdropWhile (· == '/') ++ (rest.reverse.takeWhile (· == '/')).reverse = rest := by
          rw [List.rdropWhile, ← List.reverse_append, List.takeWhile_append_dropWhile,
            List.reverse_reverse]
        rw [htrim]
        calc d :: rest = (d :: rest.rdropWhile (· == '/')) ++
              (rest.reverse.takeWhile (· == '/')).reverse := by rw [List.cons_append, hsplit]
          _ = front ++ c :: (rest.reverse.takeWhile (· == '/')).reverse := by
            rw [hfront, List.append_assoc, List.singleton_append]
      · have hslash := List.mem_takeWhile_imp (List.mem_reverse.mp he)
        exact beq_iff_eq.mp hslash

theorem normal_iff (input : String) : Normal input ↔ ¬ BlankBeforeSlashes input := by
  have hself : pathMatchesBase (normalizeBasePath input).1 (normalizeBasePath input).1 = true := by
    simp [pathMatchesBase]
  have hhead : ∀ c ∈ (stripTrailingSlashes (trim input.toList)).head?, isSpace c = false := by
    intro c hc
    refine (bare_trim input.toList).1 c ?_
    cases htrim : trim input.toList with
    | nil => rw [htrim] at hc; cases hc
    | cons d rest => rw [htrim, strip_cons] at hc; exact hc
  rw [blankBeforeSlashes_iff, Normal, and_iff_left fun _ => hself, basePath_eq, basePath_eq,
    String.toList_ofList, String.ofList_inj]
  constructor
  · rintro hsame ⟨c, hlast, hspace⟩
    obtain ⟨front, hfront⟩ := List.getLast?_eq_some_iff.mp hlast
    -- the second pass drops the blank at least
    have hshort : (trim (stripTrailingSlashes (trim input.toList))).length ≤ front.length := by
      rw [hfront, trim_append_blanks front fun d hd => by rwa [List.mem_singleton.mp hd], trim_eq]
      exact (List.rdropWhile_prefix _ _).length_le.trans (List.dropWhile_suffix _).length_le
    have hlength := (congrArg List.length hsame).symm.le.trans
      ((length_strip _).trans hshort)
    rw [hfront, List.length_append, List.length_singleton] at hlength
    omega
  · intro hnone
    have hbare : Bare (stripTrailingSlashes (trim input.toList)) := by
      refine ⟨hhead, fun c hc => ?_⟩
      by_contra hspace
      exact hnone ⟨c, hc, by simpa using hspace⟩
    rw [trim_of_bare hbare, strip_strip]

/-! ### The claim -/

/-- For every table and request the route, the URL and the base path are right exactly where the route
is written as the request writes its host, and no blank stands before trailing slashes. -/
theorem routing_right_iff (parse : String → Option BackendUrl) (routes : List ConfigRoute)
    {hostHeader : Option String} {name : List Char} (hspelled : Spelled hostHeader name)
    (path backendUrl query input : String) :
    Right parse routes hostHeader name path backendUrl query input ↔
      WrittenAlike routes name path ∧ ¬ BlankBeforeSlashes input := by
  constructor
  · intro h
    exact ⟨(mostSpecific_iff hspelled path).mp h.specific, (normal_iff input).mp h.normal⟩
  · rintro ⟨hwritten, hblank⟩
    exact ⟨(mostSpecific_iff hspelled path).mpr hwritten, fun route _ => joined parse _ _ _ _,
      (normal_iff input).mpr hblank⟩

theorem spelled_port : Spelled (some "API.example:8443") "API.example".toList :=
  ⟨.inr (by decide), [], ":8443".toList, [], by decide, .given "8443".toList (by decide),
    List.forall_mem_nil _, List.forall_mem_nil _⟩

def ordersRoute : ConfigRoute :=
  { Small.route {} with host := "api.example", basePath := "/orders" }

theorem routing_right_port :
    Right (fun _ => none) [ordersRoute] (some "API.example:8443") "API.example".toList "/orders/1" "b"
        "" "/orders" ↔
      WrittenAlike [ordersRoute] "API.example".toList "/orders/1" ∧ ¬ BlankBeforeSlashes "/orders" :=
  routing_right_iff (fun _ => none) [ordersRoute] spelled_port "/orders/1" "b" "" "/orders"

/-- The host with its trailing dot is not found. -/
theorem dotted_host_not_routed : ¬ ∀ (parse : String → Option BackendUrl) routes hostHeader name path
    backendUrl query input, Spelled hostHeader name →
      Right parse routes hostHeader name path backendUrl query input := by
  intro h
  have hspelled : Spelled (some "api.example.") "api.example.".toList :=
    ⟨.inr (by decide), [], [], [], by decide, .absent, List.forall_mem_nil _, List.forall_mem_nil _⟩
  have hright := h (fun _ => none) [ordersRoute] (some "api.example.") "api.example.".toList "/orders"
    "" "" "" hspelled
  have hnone : matchRoute (sorted [ordersRoute]) (some "api.example.") "/orders" = none := by
    rw [sorted, List.mergeSort_singleton]
    decide
  have hlaw := hright.specific
  rw [hnone] at hlaw
  refine (hlaw ordersRoute (List.mem_singleton_self _)).1 ⟨pathMatchesBase_iff.mp ?_, ?_⟩
  · decide
  · unfold Named
    decide

end Apim.DataPlane.RouteTable
