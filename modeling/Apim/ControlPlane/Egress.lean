import Apim.ControlPlane.ConfigBuild

/-!
# Which backends a deny rule matches

The matching of a rule and a URL (`control-plane/src/egress.ts:219-269`), over what `new URL` makes of
the text. A host is compared as the URL spells it, in lower case. As names of the DNS two hosts are
the same that differ by a dot at the end, so a rule covers more hosts than it matches
(`hostMatches_iff`).
-/

namespace Apim.ControlPlane
open Overlay Policy

/-- What `new URL` gives of a URL: `port` is `none` where the URL names none, or its scheme's own. -/
structure UrlParts where
  protocol : String
  hostname : String
  port : Option Nat
  deriving DecidableEq, Repr

def lowered (s : String) : List Char := s.toList.map Char.toLower

def isWildcard (pattern : List Char) : Bool := ['*', '.'].isPrefixOf pattern

def hostMatches (host pattern : String) : Bool :=
  let h := lowered host
  let p := lowered pattern
  if isWildcard p then (p.drop 1).isSuffixOf h && p.length - 1 < h.length else h == p

def portOf (url : UrlParts) : Nat := url.port.getD (if url.protocol = "https:" then 443 else 80)

/-- `portMatches`. A rule without ports has no list of them, so the list is not empty. -/
def portMatches (rule : DenyRule) (port : Nat) : Bool :=
  if rule.ports.isEmpty && rule.portRange.isNone then true
  else rule.ports.contains port || rule.portRange.any fun range => range.1 ≤ port && port ≤ range.2

def reachedBy (rule : DenyRule) (url : UrlParts) : Bool :=
  (url.protocol == "http:" || url.protocol == "https:") &&
    (rule.scheme.all fun scheme => scheme ++ ":" == url.protocol) && portMatches rule (portOf url)

def ruleMatches (parse : String → Option UrlParts) (rule : DenyRule) (rawUrl : String) : Bool :=
  match parse rawUrl with
  | none => false
  | some url => reachedBy rule url && hostMatches url.hostname rule.hostPattern

/-! ### Names of the DNS -/

def dnsName (name : List Char) : List Char :=
  if name.getLast? = some '.' then name.dropLast else name

/-- A host is the name a pattern states, or under the name it states after `*`. -/
def dnsCovers (host pattern : String) : Bool :=
  let h := dnsName (lowered host)
  let p := lowered pattern
  if isWildcard p then
    (dnsName (p.drop 1)).isSuffixOf h && (dnsName (p.drop 1)).length < h.length
  else h == dnsName p

def dotted (host : String) : Bool := (lowered host).getLast? = some '.'

theorem dnsName_of_dotted {name : List Char} (h : name.getLast? = some '.') :
    dnsName name ++ ['.'] = name := by
  unfold dnsName
  rw [if_pos h]
  obtain ⟨front, rfl⟩ := List.getLast?_eq_some_iff.mp h
  rw [List.dropLast_concat]

theorem dnsName_of_not_dotted {name : List Char} (h : name.getLast? ≠ some '.') :
    dnsName name = name :=
  if_neg h

theorem dnsName_inj {a b : List Char}
    (h : (a.getLast? = some '.') ↔ (b.getLast? = some '.')) : dnsName a = dnsName b ↔ a = b := by
  constructor
  · intro hname
    by_cases ha : a.getLast? = some '.'
    · rw [← dnsName_of_dotted ha, ← dnsName_of_dotted (h.mp ha), hname]
    · rwa [dnsName_of_not_dotted ha, dnsName_of_not_dotted (fun hb => ha (h.mpr hb))] at hname
  · intro hab
    rw [hab]

theorem dnsName_suffix {a b : List Char}
    (h : (a.getLast? = some '.') ↔ (b.getLast? = some '.')) :
    dnsName a <:+ dnsName b ∧ (dnsName a).length < (dnsName b).length ↔
      a <:+ b ∧ a.length < b.length := by
  by_cases ha : a.getLast? = some '.'
  · have hlength : ∀ {c : List Char}, c.getLast? = some '.' → c.length = (dnsName c).length + 1 := by
      intro c hc
      have hconcat := congrArg List.length (dnsName_of_dotted hc)
      rw [List.length_append, List.length_singleton] at hconcat
      omega
    have hsuffix : a <:+ b ↔ dnsName a <:+ dnsName b := by
      conv_lhs => rw [← dnsName_of_dotted ha, ← dnsName_of_dotted (h.mp ha)]
      constructor
      · rintro ⟨front, hfront⟩
        rw [← List.append_assoc] at hfront
        exact ⟨front, List.append_cancel_right hfront⟩
      · rintro ⟨front, hfront⟩
        exact ⟨front, by rw [← List.append_assoc, hfront]⟩
    have ha' := hlength ha
    have hb' := hlength (h.mp ha)
    rw [hsuffix]
    exact and_congr_right fun _ => by omega
  · rw [dnsName_of_not_dotted ha, dnsName_of_not_dotted (fun hb => ha (h.mpr hb))]

theorem getLast?_of_suffix {a b : List Char} (ha : a ≠ []) (h : a <:+ b) :
    b.getLast? = a.getLast? := by
  obtain ⟨front, rfl⟩ := h
  rw [List.getLast?_append, Option.or_of_isSome]
  rw [List.getLast?_isSome]
  exact ha

theorem getLast?_drop_wildcard {pattern : List Char} (h : isWildcard pattern = true) :
    (pattern.drop 1).getLast? = pattern.getLast? ∧ pattern.drop 1 ≠ [] := by
  obtain ⟨rest, rfl⟩ := List.isPrefixOf_iff_prefix.mp h
  exact ⟨rfl, nofun⟩

theorem hostMatches_iff (host pattern : String) :
    hostMatches host pattern = true ↔
      dnsCovers host pattern = true ∧ dotted host = dotted pattern := by
  have hdots : dotted host = dotted pattern ↔
      ((lowered host).getLast? = some '.' ↔ (lowered pattern).getLast? = some '.') := by
    unfold dotted
    exact Bool.eq_iff_iff.trans (iff_congr (decide_eq_true_iff) (decide_eq_true_iff))
  unfold hostMatches dnsCovers
  dsimp only
  rw [hdots]
  cases hwild : isWildcard (lowered pattern) with
  | false =>
    simp only [Bool.false_eq_true, if_false, beq_iff_eq]
    constructor
    · intro hsame
      rw [hsame]
      exact ⟨rfl, Iff.rfl⟩
    · rintro ⟨hname, hdot⟩
      exact (dnsName_inj hdot).mp hname
  | true =>
    obtain ⟨hlast, hne⟩ := getLast?_drop_wildcard hwild
    have hdrop : ((lowered pattern).drop 1).length = (lowered pattern).length - 1 := List.length_drop
    simp only [if_true, Bool.and_eq_true, List.isSuffixOf_iff_suffix, decide_eq_true_eq]
    rw [← hlast, ← hdrop]
    constructor
    · rintro ⟨hsuffix, hlength⟩
      have hdot : (lowered host).getLast? = some '.' ↔
          ((lowered pattern).drop 1).getLast? = some '.' := by
        rw [getLast?_of_suffix hne hsuffix]
      exact ⟨(dnsName_suffix hdot.symm).mpr ⟨hsuffix, hlength⟩, hdot⟩
    · rintro ⟨hcovers, hdot⟩
      exact (dnsName_suffix hdot.symm).mp hcovers

end Apim.ControlPlane
