import TableView.Compression.Gzip
import TableView.Compression.Zstd.Frame
import TableView.Compression.Bzip2
import TableView.Compression.Xz
import TableView.Text.Blank
import TableView.Text.LowerCase

namespace TableView.Compression

inductive Format where
  | gzip
  | zstd
  | bzip2
  | xz
deriving DecidableEq,Repr

namespace Format

def standard : Format := gzip

def all : List Format := [gzip,zstd,bzip2,xz]

def name : Format → String
  | gzip => "gzip"
  | zstd => "zstd"
  | bzip2 => "bzip2"
  | xz => "xz"

def ofKnownName? : String → Option Format
  | "gzip" | "gz" => some gzip
  | "zstd" | "zst" => some zstd
  | "bzip2" | "bz2" => some bzip2
  | "xz" => some xz
  | _ => none

def ofName? (s : String) : Option Format := ofKnownName? (Text.lowerCase (Text.trim s))

def magic : Format → List UInt8
  | gzip => Gzip.magic
  | zstd => Zstd.magic
  | bzip2 => Bzip2.magic
  | xz => Xz.magic

def ofMagic? (bytes : List UInt8) : Option Format := all.find? (fun f => f.magic.isPrefixOf bytes)

def encode : Format → List UInt8 → List UInt8
  | gzip => Gzip.encode
  | zstd => Zstd.encode
  | bzip2 => Bzip2.encode
  | xz => Xz.encode

def decode : Format → List UInt8 → Option (List UInt8)
  | gzip => Gzip.decode
  | zstd => Zstd.decode
  | bzip2 => Bzip2.decode
  | xz => Xz.decode

end Format

inductive Fault where
  | unrecognized
  | badStream (reason : String)
deriving DecidableEq,Repr

def Fault.message : Fault → String
  | unrecognized => "unrecognized compression format"
  | badStream reason => reason

def corrupt : Fault := .badStream "corrupt compressed stream"

-- Nothing compresses to nothing. Streams are written without compression.
def compress (format : Format) (bytes : List UInt8) : List UInt8 :=
  if bytes.isEmpty then [] else format.encode bytes

def isAsciiBlank (b : UInt8) : Bool := [9,10,12,13,32].contains b

def looksLikeJson (bytes : List UInt8) : Bool :=
  match bytes.dropWhile isAsciiBlank with
  | [] => false
  | b :: _ => b = 0x5B || b = 0x7B

-- The bytes in a stream of any format. Plain JSON stands for itself.
def decompress (bytes : List UInt8) : Except Fault (List UInt8) :=
  if bytes.isEmpty then .ok []
  else match Format.ofMagic? bytes with
    | some format =>
      match format.decode bytes with
      | some out => .ok out
      | none => .error corrupt
    | none => if looksLikeJson bytes then .ok bytes else .error .unrecognized

end TableView.Compression
