/-
PackageRouting/Output.lean

What a bundler emits for a bucket, and the files that come of it.

A chunk whose entry is marked in the bucket is wrapped as a classic script;
every other chunk and every asset passes unchanged.
-/
import PackageRouting.Bucket
import PackageRouting.Disk.Error
import PackageRouting.Wrapping

namespace PackageRouting

/-- The contents of an emitted file. -/
inductive Contents where
  | text (text : String)
  | bytes (bytes : List UInt8)
  deriving DecidableEq, Repr

/-- The bytes to be written. -/
def Contents.toBytes : Contents → List UInt8
  | text s => s.toUTF8.toList
  | bytes b => b

/-- An emitted piece of code. -/
structure Chunk where
  name : String
  /-- The file name below the bucket's directory. -/
  fileName : String
  code : String
  /-- The source map, if one was made. -/
  sourceMap : Option String := none
  /-- The input that the chunk was made for; none for a shared chunk. -/
  entry : Option Path := none
  deriving DecidableEq, Repr

/-- An emitted file that is no code. -/
structure Asset where
  fileName : String
  contents : Contents
  deriving DecidableEq, Repr

/-- A file to be written. -/
structure OutputFile where
  path : Path
  contents : Contents
  /-- The source map to store beside the file. -/
  sourceMap : Option String := none
  /-- The source file that it was made from, when that is known. -/
  origin : Option SourceFile := none
  deriving DecidableEq, Repr

/-- Why a sink refuses a file. -/
inductive SinkError where
  | disk (path : Path) (reason : DiskError)
  | rejected (path : Path) (reason : String)
  deriving DecidableEq, Repr

namespace SinkError

def code : SinkError → String
  | _ => "OUTPUT_WRITE_FAILED"

def message : SinkError → String
  | disk path reason => "failed to write " ++ path.text ++ ": " ++ reason.message
  | rejected path reason => "sink rejected " ++ path.text ++ ": " ++ reason

end SinkError

namespace OutputFile

/-- Whether the chunk of an input is wrapped. -/
def isWrapped (b : Bucket) (c : Chunk) : Bool :=
  c.entry.any fun path => b.nomodule.contains path

/-- The file of a chunk. -/
def ofChunk (b : Bucket) (outDir : Path) (minify : Bool) (c : Chunk) : OutputFile where
  path := outDir.join c.fileName
  contents := .text <|
    if isWrapped b c then Wrapping.wrap c.code c.sourceMap.isSome minify else c.code
  sourceMap := c.sourceMap
  origin := b.files.find? c.fileName

/-- The file of an asset. -/
def ofAsset (outDir : Path) (a : Asset) : OutputFile where
  path := outDir.join a.fileName
  contents := a.contents

/-- The files of what a bundler emitted for a bucket: the chunks and then the assets. -/
def ofEmitted (b : Bucket) (chunks : List Chunk) (assets : List Asset) (outDir : Path)
    (minify : Bool) : List OutputFile :=
  chunks.map (ofChunk b outDir minify) ++ assets.map (ofAsset outDir)

end OutputFile

end PackageRouting
