import ReplCore.Text.Quoted

/-!
# Module specifiers

A specifier names a module: one built into the host, a path, a URL, or a package with a path inside
it.

* `eq_of_splitPackage`: a package name and the path inside it make up the specifier.
-/

namespace ReplCore.Specifier

/-- The modules that the host itself provides. -/
def builtins : List String :=
  ["assert", "async_hooks", "buffer", "child_process", "cluster", "console", "constants", "crypto",
   "dgram", "diagnostics_channel", "dns", "domain", "events", "fs", "http", "http2", "https",
   "inspector", "module", "net", "os", "path", "perf_hooks", "process", "punycode", "querystring",
   "readline", "repl", "stream", "string_decoder", "sys", "timers", "tls", "trace_events", "tty",
   "url", "util", "v8", "vm", "wasi", "worker_threads", "zlib"]

/-- Whether the specifier names a module of the host, or one inside it. -/
def isBuiltin (s : Text) : Bool :=
  "node:".toList.isPrefixOf s ||
    builtins.any fun b => (Text.splitOn '/' s).head? = some b.toList

/-- Whether the specifier is a relative or an absolute path. -/
def isPath (s : Text) : Bool := s.head? = some '.' || s.head? = some '/'

/-- Whether the specifier is a URL that can be imported. -/
def isUrl (s : Text) : Bool :=
  ["https:", "http:", "data:", "file:"].any fun scheme => scheme.toList.isPrefixOf s

/-- The URL of a package on a content delivery network. -/
def cdnUrl (base s : Text) : Text :=
  Text.trimEnd (· = '/') base ++ "/".toList ++ s ++ "/+esm".toList

/-- What is wrong with a specifier. -/
inductive Error where
  | noPackageName (specifier : Text)
deriving Repr, DecidableEq

def Error.message : Error → Text
  | noPackageName s => "invalid package specifier ".toList ++ Quoted.shown s

/-- The number of segments in the name of a package: two if it has a scope. -/
def nameSegments (s : Text) : Nat := if s.head? = some '@' then 2 else 1

/-- The name of the package and the path inside it. Every segment of the name must have text. -/
def splitPackage (s : Text) : Except Error (Text × Text) :=
  let parts := Text.splitOn '/' s
  let name := parts.take (nameSegments s)
  if parts.length < nameSegments s ∨ name.contains [] then .error (.noPackageName s)
  else .ok (Text.join ['/'] name, Text.join ['/'] (parts.drop (nameSegments s)))

/-- A specifier is the name of its package, or that name with a slash and the path inside it. -/
theorem eq_of_splitPackage {s name subpath : Text} (h : splitPackage s = .ok (name, subpath)) :
    s = name ∧ subpath = [] ∨ s = name ++ '/' :: subpath := by
  simp only [splitPackage] at h
  split at h
  · cases h
  · next hparts =>
    obtain ⟨rfl, rfl⟩ := Prod.mk.inj (Except.ok.inj h)
    have hjoin := Text.join_splitOn '/' s
    have hsplit := List.take_append_drop (nameSegments s) (Text.splitOn '/' s)
    have hname : (Text.splitOn '/' s).take (nameSegments s) ≠ [] := by
      intro hnil
      have hlen := congrArg List.length hnil
      rw [List.length_take, List.length_nil] at hlen
      have : 0 < nameSegments s := by unfold nameSegments; split <;> decide
      omega
    cases hdrop : (Text.splitOn '/' s).drop (nameSegments s) with
    | nil =>
      rw [hdrop, List.append_nil] at hsplit
      exact Or.inl ⟨by rw [hsplit, hjoin], rfl⟩
    | cons p ps =>
      refine Or.inr ?_
      have happend := @Text.join_append ['/'] _ (p :: ps) hname (by simp)
      rw [← hdrop, hsplit, hjoin, hdrop] at happend
      simpa using happend

end ReplCore.Specifier
