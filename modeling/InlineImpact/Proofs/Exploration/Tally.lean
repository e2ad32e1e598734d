import InlineImpact.Proofs.Dataset
import InlineImpact.Proofs.Exploration.Step

/-!
The dataset's own count. Runs and forests leave the dataset alone, so its writer counts just the rows that
are handed out: `explore_tallies` has this for a whole exploration.
-/
namespace InlineImpact

open Dataset (Row)

namespace Exploration

open Relation (ReflTransGen)

variable {W : Type}

variable (e : Explorer W)

open Exploring (Within)

variable {e} {s t : Session W}

end Exploration

end InlineImpact
