import RustSrec.Prelude
import RustSrec.Danmaku.Hash
import RustSrec.Danmaku.Sketch
import RustSrec.Danmaku.HeavyHitters
import RustSrec.Danmaku.SpaceSaving
import RustSrec.Danmaku.WordSpaceSaving
import RustSrec.Danmaku.Aggregator
import RustSrec.Danmaku.RateSeries
import RustSrec.Danmaku.Ranking
import RustSrec.Danmaku.Session
import RustSrec.Danmu.Service
import RustSrec.Danmu.Teardown
import RustSrec.Danmu.Provenance
import RustSrec.Danmu.Rollback
import RustSrec.Danmaku.WordFilter
import RustSrec.Pipeline.Archive
import RustSrec.Pipeline.Compression
import RustSrec.Pipeline.Copy
import RustSrec.Pipeline.OutputPath
import RustSrec.Pipeline.Process
