import WebServer.Foundation.FileTree
import WebServer.Service.Handlers

/-!
# Paths of static files

The static file handler asks for the path `staticRoot() + "/" + rel` after it has looked for ".."
among the segments of `rel`, while `open` sees the path up to its first NUL. This truncation can cut
the last segment it keeps short, and no other one: all segments before the last are segments the
handler has looked at.
-/

namespace WebServer

open Bytes Search

/-! ## Segments -/

/-- What a segment of a path means when the path is resolved. -/
def pathStep (segment : Bytes) : PathStep Bytes :=
  if segment = [] ∨ segment = lit "." then .stay
  else if segment = lit ".." then .up
  else .name segment

def pathSteps (path : Bytes) : List (PathStep Bytes) := (path.splitOn slash).map pathStep

theorem pathStep_eq_up {segment : Bytes} (h : pathStep segment = .up) : segment = lit ".." := by
  unfold pathStep at h
  split at h
  · exact absurd h (by simp)
  · split at h
    · assumption
    · exact absurd h (by simp)

theorem pathSteps_ne_nil (path : Bytes) : pathSteps path ≠ [] := by
  simp [pathSteps]

theorem pathSteps_append_slash (first second : Bytes) :
    pathSteps (first ++ slash :: second) = pathSteps first ++ pathSteps second := by
  rw [pathSteps, List.splitOn_append_cons_self, List.map_append, pathSteps, pathSteps]

/-- Appending to a path changes its last segment only. -/
theorem dropLast_splitOn_prefix (text suffix : Bytes) :
    (text.splitOn slash).dropLast <+: (text ++ suffix).splitOn slash := by
  induction hlen : text.length using Nat.strong_induction_on generalizing text with
  | _ n ih =>
    by_cases hmem : slash ∈ text
    · obtain ⟨first, rest, rfl, hfirst⟩ := List.eq_append_cons_of_mem hmem
      have hrest := ih rest.length (by rw [← hlen]; simp; omega) rest rfl
      rw [List.append_assoc, List.cons_append,
        List.splitOn_append_cons_self_of_not_mem hfirst,
        List.splitOn_append_cons_self_of_not_mem hfirst,
        List.dropLast_cons_of_ne_nil (List.splitOn_ne_nil slash _)]
      exact List.cons_prefix_cons.mpr ⟨rfl, hrest⟩
    · rw [List.splitOn_eq_singleton hmem]
      exact List.nil_prefix

/-! ## The guard -/

/-- No segment of a relative path is "..". -/
def Guarded (rel : Bytes) : Prop := ∀ segment ∈ rel.splitOn slash, segment ≠ lit ".."

/-- The loop of the guard finds a ".." among the segments from its position on. -/
theorem dotDotLoop_run (before text : Bytes) :
    (dotDotLoop (before ++ text)).run before.length = decide (lit ".." ∈ text.splitOn slash) := by
  induction hlen : text.length using Nat.strong_induction_on generalizing before text with
  | _ n ih =>
    have hpos : before.length ≤ (before ++ text).length := by simp
    have hfrom : findFrom [slash] (before ++ text) before.length =
        (find [slash] text).map (· + before.length) := findFrom_append_right
    by_cases hmem : slash ∈ text
    · obtain ⟨segment, behind, rfl, hsegment⟩ := List.eq_append_cons_of_mem hmem
      have hfind : find [slash] (segment ++ slash :: behind) = some segment.length :=
        find_append_of_head_notMem hsegment
      have hsubstr : substr (before ++ (segment ++ slash :: behind)) before.length
          (segment.length + before.length - before.length) = segment := by simp [substr]
      rw [List.splitOn_append_cons_self_of_not_mem hsegment]
      by_cases hdots : segment = lit ".."
      · rw [decide_eq_true (hdots ▸ List.mem_cons_self)]
        refine WhileLoop.run_of_exit _ ?_
        simp only [dotDotLoop, hfrom, hfind, Option.map_some, Option.getD_some, hsubstr]
        rw [if_pos hpos, if_pos hdots]
      · have hnext : (dotDotLoop (before ++ (segment ++ slash :: behind))).body before.length =
            .next (before ++ (segment ++ [slash])).length := by
          simp only [dotDotLoop, hfrom, hfind, Option.map_some, Option.getD_some, hsubstr]
          rw [if_pos hpos, if_neg hdots, if_neg (by simp; omega)]
          simp
          omega
        have hassoc : before ++ (segment ++ slash :: behind) =
            before ++ (segment ++ [slash]) ++ behind := by simp
        rw [WhileLoop.run_of_next _ hnext, hassoc,
          ih behind.length (by rw [← hlen]; simp; omega) _ behind rfl]
        simp [Ne.symm hdots]
    · have hfind : find [slash] text = none := find_singleton_eq_none_iff.mpr hmem
      have hsubstr : substr (before ++ text) before.length
          ((before ++ text).length - before.length) = text := by simp [substr]
      rw [List.splitOn_eq_singleton hmem]
      refine WhileLoop.run_of_exit _ ?_
      simp only [dotDotLoop, hfrom, hfind, Option.map_none, Option.getD_none, hsubstr]
      rw [if_pos hpos]
      by_cases hdots : text = lit ".."
      · rw [if_pos hdots, decide_eq_true (hdots ▸ List.mem_cons_self)]
      · rw [if_neg hdots, if_pos (Nat.lt_succ_self _)]
        simp [Ne.symm hdots]

theorem dotDotLoop_eq_false_iff {rel : Bytes} : (dotDotLoop rel).run 0 = false ↔ Guarded rel := by
  rw [show (dotDotLoop rel).run 0 = _ from dotDotLoop_run [] rel, decide_eq_false_iff_not]
  exact ⟨fun h segment hmem hdots ↦ h (hdots ▸ hmem), fun h hmem ↦ h _ hmem rfl⟩

/-- What `open` sees of a guarded path goes up at most in its last step. -/
theorem Guarded.up_notMem_dropLast {rel : Bytes} (h : Guarded rel) :
    .up ∉ (pathSteps (cString rel)).dropLast := by
  rw [pathSteps, ← List.map_dropLast]
  intro hmem
  obtain ⟨segment, hsegment, hup⟩ := List.mem_map.mp hmem
  have hpre := dropLast_splitOn_prefix (cString rel) (rel.dropWhile (· ≠ nul))
  rw [cString, List.takeWhile_append_dropWhile] at hpre
  exact h segment (hpre.subset hsegment) (pathStep_eq_up hup)

/-! ## The paths the handlers ask for -/

/-- A path below the static root whose relative part has passed the guard. -/
def IsStaticPath (root : StaticRoot) (path : Bytes) : Prop :=
  ∃ rel, Guarded rel ∧ path = root.path ++ lit "/" ++ rel

/-- A handler that leaves a file response only for a path below the static root. -/
def Handler.ServesStatic (handler : Handler) : Prop :=
  ∀ request params services response, response.hasFile = false →
    (handler request params services response).1.hasFile = true →
    IsStaticPath services.staticRoot (handler request params services response).1.filePath

theorem Handler.servesStatic_of_hasFile_eq {handler : Handler}
    (h : ∀ request params services response,
      (handler request params services response).1.hasFile = response.hasFile) :
    handler.ServesStatic := by
  intro request params services response hbefore hafter
  exact absurd (hbefore.symm.trans ((h request params services response).symm.trans hafter))
    (by simp)

theorem servesStatic_staticFileHandler : Handler.ServesStatic staticFileHandler := by
  intro request params services response hbefore hafter
  unfold staticFileHandler at hafter ⊢
  split
  · exact absurd (hbefore.symm.trans hafter) (by simp)
  · rename_i param _
    dsimp only at hafter ⊢
    split at hafter
    · exact absurd (hbefore.symm.trans hafter) (by simp)
    · rename_i hempty
      rw [if_neg hempty]
      split at hafter
      · exact absurd (hbefore.symm.trans hafter) (by simp)
      · rename_i hdots
        rw [if_neg hdots]
        exact ⟨urlDecode param, dotDotLoop_eq_false_iff.mp (by simpa using hdots), rfl⟩

theorem servesStatic_getRouter : ∀ route ∈ getRouter, Handler.ServesStatic route.handler := by
  refine forall_mem_getRouter ?_ ?_ servesStatic_staticFileHandler ?_ ?_ ?_ ?_ ?_ <;>
    refine Handler.servesStatic_of_hasFile_eq fun request params services response ↦ ?_
  · rfl
  · rfl
  · cases params <;> rfl
  · unfold kvGetHandler
    split
    · rfl
    · split <;> rfl
  · unfold kvDeleteHandler
    split
    · rfl
    · dsimp only
      split <;> rfl
  · rfl
  · rfl

/-- Whatever the route table answers with a file lies below the static root. -/
theorem isStaticPath_of_dispatch {request : HttpRequest} {clientIp : Bytes} {now cleanupNow : Time}
    {services services' : Services} {response response' : HttpResponse}
    (hbefore : response.hasFile = false)
    (hdispatch : Router.dispatch getRouter request response clientIp now cleanupNow services =
      some (response', services')) (hafter : response'.hasFile = true) :
    IsStaticPath services.staticRoot response'.filePath := by
  rcases Router.dispatchRoutes_cases hdispatch with
    ⟨code, text, -, hrouter⟩ | ⟨route, hmem, params, limiter, hhandler⟩
  · obtain rfl : response' = (response.setStatus code).setBody text := hrouter
    exact absurd (hbefore.symm.trans hafter) (by simp)
  · have hserves := servesStatic_getRouter route hmem request params
      { services with limiter := limiter } response hbefore
    rw [← hhandler] at hserves
    exact hserves hafter

end WebServer
