import NcdfPlugin.GuardedRun
import NcdfPlugin.SharedSlot
import NcdfPlugin.InPlaceSweep
import NcdfPlugin.FlatLayout
import NcdfPlugin.ByteBuffer
import NcdfPlugin.ExactArithmetic
import NcdfPlugin.TextureSampling
import NcdfPlugin.LinearFiltering
import NcdfPlugin.Bearings
import NcdfPlugin.RingBuffer
import NcdfPlugin.SwapRemove
import NcdfPlugin.IncreasingStops
import NcdfPlugin.PrioritySearch
import NcdfPlugin.DateFormats
import NcdfPlugin.OwnedBlocks
import NcdfPlugin.SplittingStack
import NcdfPlugin.SteppedLoops
import NcdfPlugin.NcdfLibrary
import NcdfPlugin.NcdfDiscovery
import NcdfPlugin.NcdfPriority
import NcdfPlugin.NcdfTimeUnits
import NcdfPlugin.NcdfEpoch
import NcdfPlugin.NcdfUnitWords
import NcdfPlugin.NcdfMessage
import NcdfPlugin.NcdfMessageCopies
import NcdfPlugin.NcdfTimeStep
import NcdfPlugin.NcdfReader
import NcdfPlugin.NcdfGapFill
import NcdfPlugin.NcdfCurrentMask
import NcdfPlugin.NcdfEvenMap
import NcdfPlugin.NcdfCoordinates
import NcdfPlugin.NcdfInterpolation
import NcdfPlugin.NcdfDirection
import NcdfPlugin.NcdfArrows
import NcdfPlugin.NcdfBlend
import NcdfPlugin.NcdfSeam
import NcdfPlugin.NcdfTotality
import NcdfPlugin.NcdfGridAccess
import NcdfPlugin.NcdfIsoLine
import NcdfPlugin.NcdfIsoLevel
import NcdfPlugin.NcdfContour
import NcdfPlugin.NcdfChains
import NcdfPlugin.NcdfSpline
import NcdfPlugin.NcdfIsoDraw
import NcdfPlugin.NcdfOverlay
import NcdfPlugin.NcdfIsoPlacement
import NcdfPlugin.NcdfColorTable
import NcdfPlugin.NcdfRenderCache
import NcdfPlugin.NcdfParticle
import NcdfPlugin.NcdfColorMap
import NcdfPlugin.NcdfTrail
import NcdfPlugin.NcdfRespawn
import NcdfPlugin.NcdfPopulation
import NcdfPlugin.NcdfParticlePool
import NcdfPlugin.NcdfTextureLookup
import NcdfPlugin.NcdfQuantisation
import NcdfPlugin.NcdfTexelBuffer
import NcdfPlugin.NcdfShader
import NcdfPlugin.NcdfFragment
import NcdfPlugin.NcdfTiles
import NcdfPlugin.NcdfDialog
import NcdfPlugin.NcdfCoordinateReads
import NcdfPlugin.NcdfFailedLoad
import NcdfPlugin.NcdfSelection
import NcdfPlugin.NcdfCalls
import NcdfPlugin.NcdfGridShape
import NcdfPlugin.NcdfLoadedStep
import NcdfPlugin.NcdfFileSwitch
import NcdfPlugin.NcdfShownStep
import NcdfPlugin.NcdfDimensionOrder
import NcdfPlugin.NcdfDelivered
import NcdfPlugin.NcdfReadout
import NcdfPlugin.NcdfSession
import NcdfPlugin.NcdfFrames
import NcdfPlugin.NcdfConfig
import NcdfPlugin.MaskedData
import NcdfPlugin.NcdfRecord
import NcdfPlugin.NcdfRecordLookup
import NcdfPlugin.NcdfCurrentArrow
import NcdfPlugin.NcdfScalarFields
import NcdfPlugin.NcdfMapShows
