import WebServ.Http.Uploads
import WebServ.Server.Effects

/-! # Where scripts are looked for

The path of a script is built from the raw target. Unlike the paths of files, it is
not normalised, and a target that goes up leaves the root of its route.
-/
namespace WebServ
open Search Paths

namespace HTTPHandler

/-- The path of the script, before it is resolved. -/
def scriptPath (route : RouteConfig) (requestTarget : Bytes) : Bytes :=
  route.root ++ stripRoutePrefix (stripQueryString requestTarget) route.path

/-- Past the path of its route a target starts with a slash, put there when it is missing. -/
theorem stripRoutePrefix_eq {route : RouteConfig} {uri : Bytes} (h : route.covers uri = true)
    (hne : route.path ≠ []) : ∃ t, stripRoutePrefix uri route.path = 47 :: t ∧
      (uri.drop route.path.length = t ∨ uri.drop route.path.length = 47 :: t) := by
  have htake := RouteConfig.covers_take h
  have hslash : ascii "/" = [47] := by decide
  unfold stripRoutePrefix
  by_cases hroot : route.path = ascii "/"
  · rw [if_pos (Or.inl hroot)]
    have huri := List.take_append_drop route.path.length uri
    rw [htake, hroot] at huri
    refine ⟨uri.drop route.path.length, ?_, Or.inl rfl⟩
    rw [hroot]
    exact huri.symm
  · rw [if_neg (by simp [hroot, hne]), if_pos htake]
    dsimp only
    cases hrest : uri.drop route.path.length with
    | nil => exact ⟨[], by simp [hslash], Or.inl rfl⟩
    | cons b rest =>
      by_cases hb : b = 47
      · subst hb
        exact ⟨rest, by simp, Or.inr rfl⟩
      · exact ⟨b :: rest, by simp [hb, hslash], Or.inl rfl⟩

/-- The text that is built leaves the root exactly when the target goes up behind the path of its route. -/
theorem scriptPath_below_iff {route : RouteConfig} {requestTarget : Bytes}
    (h : route.covers (stripQueryString requestTarget) = true) (hne : route.path ≠ []) :
    Below 47 (ascii "..") route.root (scriptPath route requestTarget) ↔
      ascii ".." ∉ ((stripQueryString requestTarget).drop route.path.length).splitOn 47 := by
  obtain ⟨t, hstrip, hrest⟩ := stripRoutePrefix_eq h hne
  rw [scriptPath, hstrip, below_append_iff]
  rcases hrest with hrest | hrest
  · rw [hrest]
  · rw [hrest, mem_splitOn_cons_self 47 (by decide)]

/-- A slash in front makes no difference to what goes up, also where the text is cut. -/
theorem mem_splitOn_cStr_cons (t : Bytes) :
    ascii ".." ∈ (cStr (47 :: t)).splitOn 47 ↔ ascii ".." ∈ (cStr t).splitOn 47 := by
  have hcons : cStr (47 :: t) = 47 :: cStr t := List.takeWhile_cons_of_pos (by decide)
  rw [hcons, mem_splitOn_cons_self 47 (by decide)]

/-- What the system makes of the path stays below the root unless the root is cut, or the target goes up where it is
read. -/
theorem cStr_scriptPath_below_iff {route : RouteConfig} {requestTarget : Bytes}
    (h : route.covers (stripQueryString requestTarget) = true) (hne : route.path ≠ []) :
    Below 47 (ascii "..") route.root (cStr (scriptPath route requestTarget)) ↔ 0 ∉ route.root ∧
      ascii ".." ∉ (cStr ((stripQueryString requestTarget).drop route.path.length)).splitOn 47 := by
  obtain ⟨t, hstrip, hrest⟩ := stripRoutePrefix_eq h hne
  have hpath : scriptPath route requestTarget = route.root ++ ascii "/" ++ t := by
    rw [scriptPath, hstrip, List.append_assoc]
    rfl
  rw [hpath, below_cStr_iff]
  rcases hrest with hrest | hrest
  · rw [hrest]
  · rw [hrest, mem_splitOn_cStr_cons]

end HTTPHandler
end WebServ
