import WebServer.Connection.Events
import WebServer.Service.StaticPaths

/-!
# Static files stay below their root

The server runs in a working directory of a file tree without symbolic links, and `open` resolves the
path it is given there. Whatever a request asks for, a file that is queued as its answer lies strictly
below the directory `staticRoot()`.
-/

namespace WebServer

open Bytes

structure RegularFile where
  size : ℕ
  content : ℕ → Byte

/-- A file tree and the working directory of the server. -/
structure FileSystem where
  tree : FileTree Bytes RegularFile
  cwd : List Bytes

namespace FileSystem

/-- The location a path names; a path that starts with a slash is resolved from the root. -/
def resolve (fs : FileSystem) (path : Bytes) : Option (List Bytes) :=
  if path = [] then none
  else fs.tree.walk (if path.head? = some slash then [] else fs.cwd) (pathSteps path)

/-- `open` and `fstat` for a process that may read everything, with `fd` as the next descriptor. -/
def openFile (fs : FileSystem) (fd : ℕ) (path : Bytes) : Option OpenedFile :=
  (fs.resolve path).bind fun location ↦ (fs.tree.node location).map fun
    | .file file => ⟨fd, some ⟨true, file.size⟩, file.content⟩
    | _ => ⟨fd, some ⟨false, 0⟩, fun _ ↦ 0⟩

end FileSystem

/-- A regular file that `open` returns is the one at the location of the path; `open` may also fail,
for lack of permission or of descriptors. -/
def Env.Reads (env : Env) (fs : FileSystem) : Prop :=
  ∀ path opened size, env.openFile path = some opened → opened.stat = some ⟨true, size⟩ →
    ∃ location, fs.resolve path = some location ∧
      fs.tree.node location = some (.file ⟨size, opened.content⟩)

theorem FileSystem.reads_openFile (fs : FileSystem) (fd : ℕ) {env : Env}
    (h : env.openFile = fs.openFile fd) : env.Reads fs := by
  intro path opened size hopen hstat
  rw [h, FileSystem.openFile] at hopen
  obtain ⟨location, hlocation, hmap⟩ := Option.bind_eq_some_iff.mp hopen
  obtain ⟨node, hnode, rfl⟩ := Option.map_eq_some_iff.mp hmap
  refine ⟨location, hlocation, ?_⟩
  cases node with
  | file file =>
    obtain rfl : file.size = size := congrArg Stat.size (Option.some.inj hstat)
    exact hnode
  | directory entries => exact absurd hstat (by simp)
  | special => exact absurd hstat (by simp)

/-! ## Resolving static paths -/

theorem cString_staticPath (root : StaticRoot) (rel : Bytes) :
    cString (root.path ++ lit "/" ++ rel) = root.path ++ slash :: cString rel := by
  have hroot : ∀ c ∈ root.path ++ lit "/", decide (c ≠ nul) = true := by
    cases root <;> decide +kernel
  rw [cString, List.takeWhile_append_of_pos hroot, List.append_assoc]
  rfl

/-- A regular file at a static path lies strictly below the static root. -/
theorem FileSystem.strictly_below_staticRoot (fs : FileSystem) {root : StaticRoot} {path : Bytes}
    (hpath : IsStaticPath root path) {location : List Bytes} {file : RegularFile}
    (hresolve : fs.resolve (cString path) = some location)
    (hnode : fs.tree.node location = some (.file file)) :
    ∃ rootLocation, fs.resolve root.path = some rootLocation ∧
      fs.tree.IsDirectoryAt rootLocation ∧ rootLocation <+: location ∧ location ≠ rootLocation := by
  obtain ⟨rel, hguarded, rfl⟩ := hpath
  have hroot : root.path ≠ [] ∧ root.path.head? ≠ some slash := by
    cases root <;> decide
  have hempty : root.path ++ slash :: cString rel ≠ [] := by simp
  have hrelative : (root.path ++ slash :: cString rel).head? ≠ some slash := by
    rw [List.head?_append_of_ne_nil _ hroot.1]
    exact hroot.2
  rw [cString_staticPath, resolve, if_neg hempty, if_neg hrelative, pathSteps_append_slash,
    FileTree.walk_append] at hresolve
  obtain ⟨rootLocation, hrootLocation, hrest⟩ := Option.bind_eq_some_iff.mp hresolve
  have hfile : ¬ fs.tree.IsDirectoryAt location := by
    simp [FileTree.IsDirectoryAt, hnode, FileTree.isDirectory]
  have hbelow := FileTree.strictly_below_of_walk hguarded.up_notMem_dropLast hrest
    (pathSteps_ne_nil _) hfile
  refine ⟨rootLocation, ?_, hbelow⟩
  rw [resolve, if_neg hroot.1, if_neg hroot.2]
  exact hrootLocation

/-! ## Answers with a file -/

def OutSegment.isFile : OutSegment → Bool
  | file .. => true
  | bytes _ => false

namespace Session

/-- An answer with a file segment comes from a route that asked for a file, and from a regular file
that was opened for it. -/
theorem fileAnswer_of_isFile {env : Env} {keepAlive : Bool} {clientIp : Bytes} {services : Services}
    {request : HttpRequest}
    (h : (answer env keepAlive clientIp services request).segments.any OutSegment.isFile = true) :
    ∃ path opened size, IsStaticPath (env.others services).staticRoot path ∧
      env.openFile (cString path) = some opened ∧ opened.stat = some ⟨true, size⟩ ∧
      .openFile path opened.fd ∈ (answer env keepAlive clientIp services request).calls ∧
      .file opened.fd opened.content 0 size ∈
        (answer env keepAlive clientIp services request).segments := by
  cases hroute : route env keepAlive clientIp services request with
  | none => simp [answer, hroute, OutSegment.isFile] at h
  | some result =>
    obtain ⟨response, services'⟩ := result
    cases hfile : response.hasFile with
    | false => simp [answer, hroute, hfile, OutSegment.isFile] at h
    | true =>
      have hanswer : answer env keepAlive clientIp services request =
          fileAnswer env keepAlive services' response.filePath := by
        simp only [answer, hroute, hfile, if_true]
      have hinitial : (initialResponse keepAlive).hasFile = false := by cases keepAlive <;> rfl
      have hstatic := isStaticPath_of_dispatch hinitial hroute hfile
      rw [hanswer] at h ⊢
      unfold fileAnswer at h ⊢
      cases hopen : env.openFile (cString response.filePath) with
      | none => simp [hopen, OutSegment.isFile] at h
      | some opened =>
        rcases hstat : opened.stat with _ | ⟨_ | _, size⟩
        · simp [hopen, hstat, OutSegment.isFile] at h
        · simp [hopen, hstat, OutSegment.isFile] at h
        · exact ⟨response.filePath, opened, size, hstatic, hopen, hstat, by simp [hstat],
            by simp [hstat]⟩

/-- Whatever the request and the file tree, a file queued by `dispatch` was opened under a path that
names a regular file strictly below the directory `staticRoot()`. -/
theorem static_file_confined (fs : FileSystem) (env : Env) (hreads : env.Reads fs)
    (session : Session) (request : HttpRequest)
    (hfile : ((session.dispatch env request).server.outQueue.drop
      session.server.outQueue.length).any OutSegment.isFile = true) :
    ∃ path fileFd file rootLocation location,
      Action.openFile path fileFd ∈ (session.dispatch env request).trace ∧
      Action.enqueue (.file fileFd file.content 0 file.size) ∈
        (session.dispatch env request).trace ∧
      fs.resolve (cString path) = some location ∧ fs.tree.node location = some (.file file) ∧
      fs.resolve (env.others session.services).staticRoot.path = some rootLocation ∧
      fs.tree.IsDirectoryAt rootLocation ∧ rootLocation <+: location ∧ location ≠ rootLocation := by
  rw [dispatch_eq] at hfile ⊢
  simp only [answerWith, emit_server, emit_trace, List.drop_left] at hfile ⊢
  obtain ⟨path, opened, size, hstatic, hopen, hstat, hcall, hsegment⟩ := fileAnswer_of_isFile hfile
  obtain ⟨location, hresolve, hnode⟩ := hreads _ opened size hopen hstat
  obtain ⟨rootLocation, hroot, hbelow⟩ := fs.strictly_below_staticRoot hstatic hresolve hnode
  refine ⟨path, opened.fd, ⟨size, opened.content⟩, rootLocation, location, ?_, ?_, hresolve, hnode,
    hroot, hbelow⟩
  · exact List.mem_append_right _ (List.mem_append_left _ hcall)
  · exact List.mem_append_right _ (List.mem_append_right _ (List.mem_map_of_mem hsegment))

/-- A tree with one file, `/static/a.txt`, and a working directory at its root. -/
def sampleFileSystem : FileSystem where
  tree := .directory [(lit "static", .directory [(lit "a.txt", .file ⟨2, fun _ ↦ 65⟩)])]
  cwd := []

theorem static_file_confined_sample :
    ∃ path location, sampleFileSystem.resolve (cString path) = some location ∧
      [lit "static"] <+: location ∧ location ≠ [lit "static"] := by
  let env : Env := ⟨id, 0, 0, sampleFileSystem.openFile 9⟩
  obtain ⟨path, _, _, rootLocation, location, -, -, hresolve, -, hroot, -, hpre, hne⟩ :=
    static_file_confined sampleFileSystem env (FileSystem.reads_openFile _ 9 rfl)
      (new 7 (lit "10.0.0.1") ⟨⟨∅⟩, .new, .static⟩)
      { HttpRequest.clear with
        method := lit "GET", path := lit "/static/%61.txt", version := lit "HTTP/1.1" }
      (by decide)
  have hstatic : sampleFileSystem.resolve (lit "static") = some [lit "static"] := by decide
  obtain rfl := Option.some.inj (hroot.symm.trans hstatic)
  exact ⟨path, location, hresolve, hpre, hne⟩

end Session

end WebServer
