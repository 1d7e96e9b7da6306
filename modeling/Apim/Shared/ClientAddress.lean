import Apim.Shared.Ipv6Formats

/-!
# The address of the client

`effectiveClientIp` (`shared/net.ts:158-179`) takes the rightmost entry of `X-Forwarded-For` that is an
IPv4 address outside the trusted ranges, so what a client writes before its own address is not looked
at. An entry that is no IPv4 address is skipped, and a client with an IPv6 address is one of those
(`unchosen_iff`).
-/

namespace Apim.Net
open Routing (isSpace trim)
open JsNumber (isDigit IsDigits wholeUpTo)

/-! ### What the code takes -/

def trusted (cidrs : List Text) (ip : Text) : Bool := cidrs.any (ipInCidr ip)

def stops (cidrs : List Text) (candidate : Text) : Bool :=
  (ipv4ToInt candidate).isSome && !trusted cidrs candidate

def clientOf (cidrs : List Text) (entries : List Text) : Option Text :=
  ((entries.map fun entry => canonicalIp (trim entry)).filter (· != [])).reverse.find? (stops cidrs)

/-- `effectiveClientIp` (`shared/net.ts:158-179`). -/
def effectiveClientIp (forwardedFor : Option Text) (peerIp : Text) (cidrs : List Text) : Text :=
  let peer := canonicalIp peerIp
  if cidrs = [] then peer
  else if !trusted cidrs peer then peer
  else (clientOf cidrs ((forwardedFor.getD []).splitOn ',')).getD peer

/-- What a client writes, where it writes a header, and the addresses the proxies append. -/
def forwarded (text : Option Text) (appended : List Text) : Text :=
  [','].intercalate (text.toList ++ appended.map (' ' :: ·))

def AddressText (text : Text) : Prop := (∃ a, Ipv4Text text a) ∨ ∃ words, Ipv6Text text words

/-! ### The loop over a header -/

theorem clientOf_append (cidrs front back : List Text) :
    clientOf cidrs (front ++ back) = (clientOf cidrs back).or (clientOf cidrs front) := by
  rw [clientOf, List.map_append, List.filter_append, List.reverse_append, List.find?_append]
  rfl

theorem clientOf_singleton (cidrs : List Text) (entry : Text) :
    clientOf cidrs [entry] =
      if stops cidrs (canonicalIp (trim entry)) = true then some (canonicalIp (trim entry))
      else none := by
  have hempty : stops cidrs [] = false := rfl
  by_cases hne : canonicalIp (trim entry) = []
  · rw [clientOf, List.map_singleton, hne, hempty]
    rfl
  · have hkept : (canonicalIp (trim entry) != []) = true := bne_iff_ne.mpr hne
    simp only [clientOf, List.map_cons, List.map_nil, List.filter_cons, List.filter_nil, hkept, if_true,
      List.reverse_singleton, List.find?_singleton]

theorem canonicalIp_canonicalIp (ip : Text) : canonicalIp (canonicalIp ip) = canonicalIp ip := by
  have hcases : canonicalIp ip = ip ∨ isDottedShape (canonicalIp ip) = true := by
    by_cases hmapped : (isMappedHead (ip.take 7) && isDottedShape (ip.drop 7) &&
        ((ip.drop 7).splitOn '.').all (fun part => (wholeUpTo 255 part).isSome)) = true
    · have hcut : canonicalIp ip = ip.drop 7 := if_pos hmapped
      rw [hcut]
      simp only [Bool.and_eq_true] at hmapped
      exact .inr hmapped.1.2
    · exact .inl (if_neg hmapped)
  rcases hcases with hsame | hshape
  · rw [hsame, hsame]
  · refine canonicalIp_of_notMem fun hmem => ?_
    generalize canonicalIp ip = text at hshape hmem
    rw [← intercalate_dots text] at hmem
    unfold isDottedShape at hshape
    simp only [Bool.and_eq_true, List.all_eq_true] at hshape
    rcases mem_intercalate hmem with hdot | ⟨part, hpart, hin⟩
    · exact absurd hdot (by decide)
    · exact absurd ((hshape.2 part hpart).2 ':' hin) (by decide)

theorem trusted_canonicalIp (cidrs : List Text) (ip : Text) :
    trusted cidrs (canonicalIp ip) = trusted cidrs ip := by
  unfold trusted
  congr 1
  funext cidr
  unfold ipInCidr
  rw [canonicalIp_canonicalIp]

/-! ### Entries that are addresses -/

theorem mem_mappedHead {head : Text} (h : isMappedHead head = true) {c : Char} (hc : c ∈ head) :
    c ≠ ',' ∧ isSpace c = false := by
  have hlower : c.toLower ∈ "::ffff:".toList := by
    rw [← eq_of_beq h]
    exact List.mem_map_of_mem hc
  have hascii : ∀ d ∈ "::ffff:".toList, d.toNat < 128 := by decide +kernel
  have hall : ∀ n < 128, (Char.ofNat n).toLower ∈ "::ffff:".toList →
      Char.ofNat n ≠ ',' ∧ isSpace (Char.ofNat n) = false := by decide +kernel
  have hsmall : c.toNat < 128 := by
    by_contra hbig
    have hsame : c.toLower = c := by
      delta Char.toLower
      rw [dif_neg]
      rintro ⟨-, hle⟩
      have : c.toNat ≤ 90 := UInt32.le_iff_toNat_le.mp hle
      omega
    rw [hsame] at hlower
    exact hbig (hascii c hlower)
  have hc := hall c.toNat hsmall
  rw [Char.ofNat_toNat] at hc
  exact hc hlower

variable {text : Text}

theorem plain_address (h : AddressText text) : ',' ∉ text ∧ ∀ c ∈ text, isSpace c = false := by
  have hdigit : ∀ {c : Char}, isDigit c = true → c ≠ ',' ∧ isSpace c = false := fun hc =>
    ⟨fun heq => absurd hc (by rw [heq]; decide), JsNumber.not_space_of_isDigit hc⟩
  have hdotted : ∀ {text : Text} {a : BitVec 32}, Dotted text a →
      ∀ c ∈ text, c ≠ ',' ∧ isSpace c = false := by
    intro text a hdot c hc
    rcases mem_dotted hdot hc with rfl | hin
    · decide
    · exact hdigit hin
  have hall : ∀ c ∈ text, c ≠ ',' ∧ isSpace c = false := by
    rcases h with ⟨a, hquad⟩ | ⟨words, hform⟩
    · cases hquad with
      | dotted hdot => exact hdotted hdot
      | mapped hhead hdot _ =>
        intro c hc
        rcases List.mem_append.mp hc with hin | hin
        · exact mem_mappedHead hhead hin
        · exact hdotted hdot c hin
    · intro c hc
      rcases mem_ipv6Text hform hc with rfl | rfl | hhex
      · decide
      · decide
      · exact ⟨fun heq => absurd hhex (by rw [heq]; decide), isSpace_of_isHex hhex⟩
  exact ⟨fun hin => (hall ',' hin).1 rfl, fun c hc => (hall c hc).2⟩

theorem trim_address (h : AddressText text) : trim (' ' :: text) = text := by
  have hbare := (plain_address h).2
  have hspace : isSpace ' ' = true := by decide
  have htrim : trim text = text := Routing.trim_of_bare
    ⟨fun c hc => hbare c (List.mem_of_mem_head? hc), fun c hc => hbare c (List.mem_of_mem_getLast? hc)⟩
  have hdrop : trim (' ' :: text) = trim text := by
    rw [Routing.trim_eq, Routing.trim_eq, List.dropWhile_cons_of_pos hspace]
  rw [hdrop, htrim]

theorem colon_mem_ipv6Text {words : List Nat} (h : Ipv6Text text words) : ':' ∈ text := by
  rcases form_cases h with hgroups | ⟨front, quad, a, init, rfl, -, -, -⟩
  · exact colon_mem_noQuad hgroups
  · simp

theorem ipv4ToInt_address (h : AddressText text) :
    (ipv4ToInt (canonicalIp text)).isSome = true ↔ ∃ a, Ipv4Text text a := by
  constructor
  · intro hread
    rcases h with hquad | ⟨words, hform⟩
    · exact hquad
    by_cases hmapped : (isMappedHead (text.take 7) && isDottedShape (text.drop 7) &&
        ((text.drop 7).splitOn '.').all (fun part => (wholeUpTo 255 part).isSome)) = true
    · simp only [Bool.and_eq_true, List.all_eq_true] at hmapped
      obtain ⟨⟨hhead, hshape⟩, hoctets⟩ := hmapped
      unfold isDottedShape at hshape
      simp only [Bool.and_eq_true, List.all_eq_true, beq_iff_eq, bne_iff_ne, ne_eq,
        decide_eq_true_eq] at hshape
      have hdotted : Dotted (text.drop 7) (numberOf ((text.drop 7).splitOn '.')) := by
        refine (dotted_iff _ _).mpr ⟨hshape.1, fun part hpart => ?_, rfl⟩
        obtain ⟨⟨hne, -⟩, hdigits⟩ := hshape.2 part hpart
        refine isOctet_of_octet ⟨hne, hdigits⟩ ?_
        rw [octet, if_neg hne]
        exact hoctets part hpart
      have hform := Ipv4Text.mapped hhead hdotted fun part hpart => (hshape.2 part hpart).1.2
      rw [List.take_append_drop] at hform
      exact ⟨_, hform⟩
    · -- no part of it with a colon is an octet
      have hsame : canonicalIp text = text := if_neg hmapped
      rw [hsame] at hread
      obtain ⟨-, hparts⟩ := parts_of_ipv4ToInt hread
      have hcolon := colon_mem_ipv6Text hform
      rw [← intercalate_dots text] at hcolon
      rcases mem_intercalate hcolon with hdot | ⟨part, hpart, hin⟩
      · exact absurd hdot (by decide)
      · have hoctet := hparts part hpart
        rw [octet, if_neg (List.ne_nil_of_mem hin), wholeUpTo, JsNumber.toNumber_eq_none hin] at hoctet
        cases hoctet
  · rintro ⟨a, hquad⟩
    rw [ipv4ToInt_canonicalIp hquad]
    rfl

/-! ### A header with what the client writes -/

theorem splitOn_forwarded (text : Option Text) {appended : List Text} (hne : appended ≠ [])
    (h : ∀ entry ∈ appended, ',' ∉ entry) :
    (forwarded text appended).splitOn ',' =
      (text.elim [] (·.splitOn ',')) ++ appended.map (' ' :: ·) := by
  have hparts : ∀ part ∈ appended.map (' ' :: ·), ',' ∉ part := by
    intro part hpart
    obtain ⟨entry, hentry, rfl⟩ := List.mem_map.mp hpart
    simpa using h entry hentry
  have hmap : appended.map (' ' :: ·) ≠ [] := by simpa using hne
  have hcut := List.splitOn_intercalate ',' hparts hmap
  cases text with
  | none => exact hcut
  | some text =>
    rw [forwarded, Option.toList_some, List.singleton_append,
      List.intercalate_cons_of_ne_nil hmap, List.append_assoc, List.singleton_append,
      List.splitOn_append_cons_self, hcut]
    rfl

variable {cidrs : List Text}

theorem clientOf_proxies {proxies : List Text}
    (h : ∀ proxy ∈ proxies, AddressText proxy ∧ trusted cidrs proxy = true) :
    clientOf cidrs (proxies.map (' ' :: ·)) = none := by
  induction proxies with
  | nil => rfl
  | cons proxy proxies ih =>
    obtain ⟨haddress, htrusted⟩ := h proxy List.mem_cons_self
    have hskipped : stops cidrs (canonicalIp (trim (' ' :: proxy))) = false := by
      rw [stops, trim_address haddress, trusted_canonicalIp, htrusted, Bool.not_true, Bool.and_false]
    rw [List.map_cons, ← List.singleton_append, clientOf_append,
      ih fun other hother => h other (List.mem_cons_of_mem _ hother), clientOf_singleton, hskipped]
    rfl

theorem clientOf_forwarded {proxies : List Text} {real : Text} (hreal : AddressText real)
    (houtside : trusted cidrs real = false)
    (hproxies : ∀ proxy ∈ proxies, AddressText proxy ∧ trusted cidrs proxy = true)
    (text : Option Text) :
    clientOf cidrs ((forwarded text (real :: proxies)).splitOn ',') =
      if (ipv4ToInt (canonicalIp real)).isSome = true then some (canonicalIp real)
      else clientOf cidrs (text.elim [] (·.splitOn ',')) := by
  have hcommas : ∀ entry ∈ real :: proxies, ',' ∉ entry := by
    intro entry hentry
    rcases List.mem_cons.mp hentry with rfl | hin
    · exact (plain_address hreal).1
    · exact (plain_address (hproxies entry hin).1).1
  have hstops : stops cidrs (canonicalIp real) = (ipv4ToInt (canonicalIp real)).isSome := by
    rw [stops, trusted_canonicalIp, houtside, Bool.not_false, Bool.and_true]
  rw [splitOn_forwarded text (List.cons_ne_nil _ _) hcommas, List.map_cons, clientOf_append,
    ← List.singleton_append, clientOf_append, clientOf_proxies hproxies, clientOf_singleton,
    trim_address hreal, hstops]
  split
  · rfl
  · rfl

theorem comma_notMem_splitOn {entry : Text} (h : entry ∈ text.splitOn ',') : ',' ∉ entry := by
  induction text generalizing entry with
  | nil =>
    obtain rfl := List.mem_singleton.mp h
    exact List.not_mem_nil
  | cons c text ih =>
    rw [List.splitOn_cons_eq_if_modifyHead] at h
    by_cases hc : c = ','
    · rw [if_pos (beq_iff_eq.mpr hc)] at h
      rcases List.mem_cons.mp h with rfl | hin
      · exact List.not_mem_nil
      · exact ih hin
    · rw [if_neg (fun heq => hc (eq_of_beq heq))] at h
      obtain ⟨first, more, hcut⟩ := List.exists_cons_of_ne_nil (List.splitOn_ne_nil ',' text)
      rw [hcut] at h ih
      rcases List.mem_cons.mp h with rfl | hin
      · have hfirst := ih List.mem_cons_self
        simpa [Ne.symm hc] using hfirst
      · exact ih (List.mem_cons_of_mem _ hin)

/-- The address taken does not depend on what the client writes, and is its own or the peer's. -/
structure Unchosen (cidrs : List Text) (peer real : Text) (proxies : List Text) : Prop where
  same : ∀ text text', effectiveClientIp (some (forwarded text (real :: proxies))) peer cidrs =
    effectiveClientIp (some (forwarded text' (real :: proxies))) peer cidrs
  own : ∀ text, effectiveClientIp (some (forwarded text (real :: proxies))) peer cidrs =
      canonicalIp real ∨
    effectiveClientIp (some (forwarded text (real :: proxies))) peer cidrs = canonicalIp peer

def Consulted (cidrs : List Text) (peer : Text) : Prop := cidrs ≠ [] ∧ trusted cidrs peer = true

def Choice (cidrs : List Text) (entry : Text) : Prop :=
  ',' ∉ entry ∧ stops cidrs (canonicalIp (trim entry)) = true

theorem clientOf_eq_none {entries : List Text} (h : ¬ ∃ entry, Choice cidrs entry)
    (hentries : ∀ entry ∈ entries, ',' ∉ entry) : clientOf cidrs entries = none := by
  rw [clientOf, List.find?_eq_none]
  intro candidate hcandidate hstops
  obtain ⟨hin, -⟩ := List.mem_filter.mp (List.mem_reverse.mp hcandidate)
  obtain ⟨entry, hentry, rfl⟩ := List.mem_map.mp hin
  exact h ⟨entry, hentries entry hentry, hstops⟩

theorem effectiveClientIp_consulted {peer : Text} (h : Consulted cidrs peer) (header : Text) :
    effectiveClientIp (some header) peer cidrs =
      (clientOf cidrs (header.splitOn ',')).getD (canonicalIp peer) := by
  have htrusted := h.2
  rw [← trusted_canonicalIp] at htrusted
  simp only [effectiveClientIp, if_neg h.1, htrusted, Bool.not_true, Bool.false_eq_true, if_false,
    Option.getD_some]

theorem effectiveClientIp_ignored {peer : Text} (h : ¬ Consulted cidrs peer) (header : Text) :
    effectiveClientIp (some header) peer cidrs = canonicalIp peer := by
  unfold effectiveClientIp
  by_cases hempty : cidrs = []
  · rw [if_pos hempty]
  · have huntrusted : trusted cidrs (canonicalIp peer) = false := by
      rw [trusted_canonicalIp]
      by_contra htrusted
      exact h ⟨hempty, by simpa using htrusted⟩
    simp only [if_neg hempty, huntrusted, Bool.not_false, if_true]

theorem unchosen_iff (cidrs : List Text) (peer real : Text) (proxies : List Text)
    (hreal : AddressText real) (houtside : trusted cidrs real = false)
    (hproxies : ∀ proxy ∈ proxies, AddressText proxy ∧ trusted cidrs proxy = true) :
    Unchosen cidrs peer real proxies ↔
      ¬ Consulted cidrs peer ∨ (∃ a, Ipv4Text real a) ∨ ¬ ∃ entry, Choice cidrs entry := by
  have hforwarded := clientOf_forwarded hreal houtside hproxies
  constructor
  · intro h
    by_contra hnot
    simp only [not_or, not_not] at hnot
    obtain ⟨hconsulted, hnone, entry, hcomma, hstops⟩ := hnot
    have hskipped : ¬ (ipv4ToInt (canonicalIp real)).isSome = true := fun hread =>
      hnone ((ipv4ToInt_address hreal).mp hread)
    have hsame := h.same (some entry) none
    rw [effectiveClientIp_consulted hconsulted, effectiveClientIp_consulted hconsulted, hforwarded,
      hforwarded, if_neg hskipped, if_neg hskipped] at hsame
    simp only [Option.elim_some, Option.elim_none, List.splitOn_eq_singleton hcomma,
      clientOf_singleton, if_pos hstops] at hsame
    have htaken : canonicalIp (trim entry) = canonicalIp peer := hsame
    have htrusted := hconsulted.2
    rw [← trusted_canonicalIp, ← htaken] at htrusted
    rw [stops, htrusted, Bool.not_true, Bool.and_false] at hstops
    cases hstops
  · intro h
    by_cases hconsulted : Consulted cidrs peer
    · by_cases hread : (ipv4ToInt (canonicalIp real)).isSome = true
      · have htaken : ∀ text, effectiveClientIp (some (forwarded text (real :: proxies))) peer cidrs =
            canonicalIp real := by
          intro text
          rw [effectiveClientIp_consulted hconsulted, hforwarded, if_pos hread, Option.getD_some]
        exact ⟨fun text text' => by rw [htaken, htaken], fun text => .inl (htaken text)⟩
      · have hchoice : ¬ ∃ entry, Choice cidrs entry := by
          rcases h with hignored | hquad | hchoice
          · exact absurd hconsulted hignored
          · exact absurd ((ipv4ToInt_address hreal).mpr hquad) hread
          · exact hchoice
        have hpeer : ∀ text, effectiveClientIp (some (forwarded text (real :: proxies))) peer cidrs =
            canonicalIp peer := by
          intro text
          rw [effectiveClientIp_consulted hconsulted, hforwarded, if_neg hread,
            clientOf_eq_none hchoice, Option.getD_none]
          cases text with
          | none => exact fun _ hin => nomatch hin
          | some text => exact fun entry hentry => comma_notMem_splitOn hentry
        exact ⟨fun text text' => by rw [hpeer, hpeer], fun text => .inr (hpeer text)⟩
    · have hpeer := effectiveClientIp_ignored hconsulted
      exact ⟨fun text text' => by rw [hpeer, hpeer], fun text => .inr (hpeer _)⟩

theorem unchosen_iff_dotted :
    Unchosen ["10.0.0.0/8".toList] "10.0.0.1".toList "203.0.113.9".toList ["10.0.0.2".toList] := by
  have hreal : Ipv4Text "203.0.113.9".toList (numberOf ("203.0.113.9".toList.splitOn '.')) :=
    .dotted ((dotted_iff _ _).mpr ⟨by decide +kernel, by decide +kernel, rfl⟩)
  have hproxy : Ipv4Text "10.0.0.2".toList (numberOf ("10.0.0.2".toList.splitOn '.')) :=
    .dotted ((dotted_iff _ _).mpr ⟨by decide +kernel, by decide +kernel, rfl⟩)
  refine (unchosen_iff ["10.0.0.0/8".toList] "10.0.0.1".toList "203.0.113.9".toList
    ["10.0.0.2".toList] (.inl ⟨_, hreal⟩) (by decide +kernel) ?_).mpr (.inr (.inl ⟨_, hreal⟩))
  intro proxy hin
  obtain rfl := List.mem_singleton.mp hin
  exact ⟨.inl ⟨_, hproxy⟩, by decide +kernel⟩

/-- A client at `2001:db8::1` is whoever it says it is. -/
theorem ipv6_client_chooses :
    AddressText "2001:db8::1".toList ∧ trusted ["10.0.0.0/8".toList] "2001:db8::1".toList = false ∧
      effectiveClientIp (some (forwarded (some "192.0.2.7".toList) ["2001:db8::1".toList]))
        "10.0.0.1".toList ["10.0.0.0/8".toList] = "192.0.2.7".toList ∧
      ¬ Unchosen ["10.0.0.0/8".toList] "10.0.0.1".toList "2001:db8::1".toList [] := by
  have hchosen : effectiveClientIp
      (some (forwarded (some "192.0.2.7".toList) ["2001:db8::1".toList])) "10.0.0.1".toList
      ["10.0.0.0/8".toList] = "192.0.2.7".toList := by decide +kernel
  have hform : Ipv6Text (colons ["2001".toList, "db8".toList] ++ ':' :: ':' :: colons ["1".toList]) _ :=
    Form.short (Row.groups (by decide +kernel)) (Row.groups (by decide +kernel)) (by decide +kernel)
  refine ⟨.inr ⟨_, hform⟩, by decide +kernel, hchosen, fun h => ?_⟩
  rcases h.own (some "192.0.2.7".toList) with hreal | hpeer
  · rw [hchosen] at hreal
    exact absurd hreal (by decide +kernel)
  · rw [hchosen] at hpeer
    exact absurd hpeer (by decide +kernel)

end Apim.Net
