import OxideMq.Lib.Crc
import OxideMq.Stream.ObjectFormat
import OxideMq.Wal.Frame

/-! What the checksum catches. -/

namespace OxideMq

open Lib OxideMq.Core List

namespace Core

end Core

namespace Wal.WalRecord

end Wal.WalRecord

namespace Stream.S3ObjectCodec

variable {front : List S3DataBlock} {block : S3DataBlock} {data : Bytes}

end Stream.S3ObjectCodec

end OxideMq
