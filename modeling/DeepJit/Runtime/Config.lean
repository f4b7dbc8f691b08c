import DeepJit.Utils.Path

/-!
# Runtime configuration

The members of `Config` that reach the cache key or a command line, after the constructor's checks.
-/

namespace DeepJit

structure Config where
  pythonLibraryRoot : Bytes
  extraSignature : Bytes := []
  includeDirs : List Bytes := []
  includePrefixes : List Bytes := []

/-- `Config::get_python_path`. -/
def Config.getPythonPath (config : Config) (relPath : Bytes) : Bytes :=
  appendPath config.pythonLibraryRoot (lexicallyNormal relPath)

end DeepJit
