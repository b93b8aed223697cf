import Mathlib

namespace LinuxRecovery.UpdateFile

structure ImageInfo where
  name : String
  fsType : String
  offset : UInt64
  size : UInt64
  chunksize : UInt32
  chunkcount : UInt32
  deriving DecidableEq

structure PartItem where
  name : String
  offset : UInt64
  size : UInt64
  blockName : String
  deriving DecidableEq

structure PartInfo extends PartItem where
  imageCount : UInt32
  totalChunks : UInt32
  list : List ImageInfo
  deriving DecidableEq

structure DeviceInfo where
  type : String
  list : List PartInfo
  deriving DecidableEq

end LinuxRecovery.UpdateFile
