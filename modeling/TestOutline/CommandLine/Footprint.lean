import TestOutline.CommandLine.Grammar
import TestOutline.CommandLine.Target
import TestOutline.Settings.Discovery

/-!
The places that carrying out a request may look at: the file or directory it names, and where
settings for it may be.
-/

namespace TestOutline

def Location.next (location : Location) (segment : List Char) : Location :=
  if Path.isFiller segment then location
  else if Path.isUp segment then location.tail
  else .ofList segment :: location

def Location.onWay (here : Location) (path : Path) : List Location :=
  (path.segments.foldl (fun places segment =>
    places ++ (places.getLast?.map (·.next segment)).toList) [FileTree.start here path])

namespace CommandLine

def settingsCandidates (start : Path) : List Path :=
  (start :: start.ancestors).flatMap fun directory =>
    Settings.fileNames.map (directory.join ⟨·⟩)

def pathsFor (here : Location) (argument : String) : List Path :=
  let file := here.path.join ⟨(Target.ofArgument argument).path⟩
  file :: settingsCandidates file

def Request.paths (here : Location) : Request → List Path
  | .analyze target _ => pathsFor here target
  | .pattern target => pathsFor here target
  | .command target _ _ => pathsFor here target
  | .init directory _ =>
    let chosen := here.path.join ((directory.map Path.mk).getD here.path)
    [chosen, chosen.join ⟨Settings.newFileName⟩]

def Request.footprint (here : Location) (request : Request) : List Location :=
  ((request.paths here).flatMap (Location.onWay here)).eraseDups

end CommandLine

end TestOutline
