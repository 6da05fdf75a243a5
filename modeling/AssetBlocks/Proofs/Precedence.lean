import AssetBlocks.Config.Load
import AssetBlocks.Proofs.Ancestors
import AssetBlocks.Proofs.Expansion

/-! Where each setting of a configuration is from. The file is the one that is named, else
that of the nearest directory, and nothing farther up is looked at; a setting is what
overrides it, else what is written in the file, else the default, one by one. -/
namespace AssetBlocks.Config

section Used
variable {s s' : Surroundings} {named used : Option Path}

end Used

section Chooses
variable {s s' : Surroundings} {d d' x : Document} {dir : Path} {o : Settings.Overrides}
  {chosen : Settings}

end Chooses

section Load
variable {s s' : Surroundings} {named : Option Path} {o : Settings.Overrides} {c : Config}

end Load

section Trees
variable {t t' : FileTree} {cwd : Path} {environment : Environment} {named : Option Path}
  {o : Settings.Overrides} {c : Config}

end Trees

end AssetBlocks.Config
