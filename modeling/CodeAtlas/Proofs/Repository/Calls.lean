import CodeAtlas.Proofs.Repository.Fetch

namespace CodeAtlas.Repository

open FileSystem

/-! ## Recorded calls -/

variable {client : GitClient} {fs made : FileSystem} {temporary directory : Path} {stem url : String}

section Address

variable (address : isAddress url = true)

include address

end Address

end CodeAtlas.Repository
