import Apim.DataPlane.Route
import Apim.Shared.Letters
import Apim.Shared.Routing

/-!
# Token providers

What a gateway asks a backend's token of (`data-plane/src/backend-auth.ts:20-175`).
-/

namespace Apim.DataPlane

open Apim.Overlay

/-- A name that `REF_NAME` accepts (`shared/policy.ts:492`). -/
structure RefName where
  text : String
  noBar : '|' ∉ text.toList
  deriving DecidableEq

/-- `ConfigTokenProvider` (`shared/config-doc.ts:215-222`). -/
structure ConfigTokenProvider where
  tokenUrl : String
  scope : Option String
  skewSec : Option Nat
  credential : String
  deriving DecidableEq, Repr

theorem tokenCacheKey_inj {ref ref' : RefName} {scope scope' : Option String}
    (h : ref.text ++ "|" ++ scope.getD "" = ref'.text ++ "|" ++ scope'.getD "") :
    ref = ref' ∧ scope.getD "" = scope'.getD "" := by
  obtain ⟨text, hbar⟩ := ref
  obtain ⟨text', hbar'⟩ := ref'
  have hlists : text.toList ++ '|' :: (scope.getD "").toList =
      text'.toList ++ '|' :: (scope'.getD "").toList := by
    have hchars := congrArg String.toList h
    simpa [String.toList_append] using hchars
  obtain ⟨hname, hscope⟩ := Letters.cut_unique hbar hbar' hlists
  have htext : text = text' := String.toList_injective hname
  subst htext
  exact ⟨rfl, String.toList_injective hscope⟩

end Apim.DataPlane
