import Mathlib.Data.List.Basic

/-!
# Names and texts

The names of namespaces, which the auth service, the control plane and the gateway check in the
same way: their grammar, and the names that are reserved. These services count the length of a
text in units of UTF-16.
-/

namespace Wdl

/-- The length of a text in the units of the source. -/
def utf16Length (text : String) : ℕ :=
  text.toList.foldl (fun n c => if 0xffff < c.toNat then n + 2 else n + 1) 0

/-- The name of a namespace. -/
abbrev Ns := String

def reservedNs : List Ns := ["__system__", "__platform__", "__community__"]

def isReservedNs (ns : Ns) : Bool := ns ∈ reservedNs

/-- A lowercase letter or a digit. -/
def isNsChar (c : Char) : Bool := c.isLower || c.isDigit

/-- `NS_RE`: lowercase letters, digits and inner hyphens, at most 63 of them. -/
def matchesNsPattern (ns : Ns) : Bool :=
  ns.toList.all (fun c => isNsChar c || c = '-') && decide (ns.length ≤ 63)
    && ns.toList.head?.any isNsChar && ns.toList.getLast?.any isNsChar

/-- The names that the grammar allows and no tenant can have. -/
def reservedTenantNs : List Ns := ["admin"]

def isValidTenantNs (ns : Ns) : Bool :=
  !isReservedNs ns && !(ns ∈ reservedTenantNs) && matchesNsPattern ns

/-- The reserved namespaces that may have route patterns. -/
def routesAllowedReservedNs : List Ns := ["__system__"]

/-- The namespaces of the platform, which offer exports to all others. -/
def platformTierReservedNs : List Ns := ["__platform__"]

def isValidRouteNs (ns : Ns) : Bool := isValidTenantNs ns || decide (ns ∈ routesAllowedReservedNs)

end Wdl
