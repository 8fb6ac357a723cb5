import LayeredSettings.Store.Basic

/-!
# Host properties

The properties that a host shows, under the names by which settings mention them.
-/

namespace LayeredSettings

/-- The properties that differ between hosts of one kind. -/
structure Machine where
  architecture : Text
  release : Text
  runtimeVersion : Text
  executable : Text
  workingDirectory : Text
  home : Text

def Machine.properties (m : Machine) : Settings :=
  Settings.ofList
    [("os.name".toList, "posix".toList), ("os.arch".toList, m.architecture),
      ("os.version".toList, m.release), ("platform.system".toList, "Linux".toList),
      ("python.version".toList, m.runtimeVersion),
      ("python.implementation".toList, "CPython".toList),
      ("python.executable".toList, m.executable), ("file.separator".toList, "/".toList),
      ("path.separator".toList, ":".toList), ("line.separator".toList, "\n".toList),
      ("user.dir".toList, m.workingDirectory), ("user.home".toList, m.home)]

end LayeredSettings
