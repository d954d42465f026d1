import GoSite.GoStrings

/-!
# Version comparison of the plugin service
-/
namespace GoSite.Plugin
open GoStrings

/-- `strconv.Atoi` with its error dropped. -/
def atoiOrZero (part : List Char) : ℤ := (atoi part).1

/-- `semverParts`: the first three dot-separated numbers before the first dash. -/
def semverParts (v : String) : ℤ × ℤ × ℤ :=
  let v := trimPrefix (trimSpaceChars v.toList) ['v']
  let v := (v.splitOn '-').headD []
  let out := (v.splitOn '.').map atoiOrZero
  (out.getD 0 0, out.getD 1 0, out.getD 2 0)

/-- `compareSemver`: the first part that differs decides. -/
def compareSemver (a b : String) : ℤ :=
  let ap := semverParts a
  let bp := semverParts b
  if ap.1 > bp.1 then 1
  else if ap.1 < bp.1 then -1
  else if ap.2.1 > bp.2.1 then 1
  else if ap.2.1 < bp.2.1 then -1
  else if ap.2.2 > bp.2.2 then 1
  else if ap.2.2 < bp.2.2 then -1
  else 0

example : compareSemver "v1.10.0-rc1" " 1.9.9 " = 1 := by decide

end GoSite.Plugin
