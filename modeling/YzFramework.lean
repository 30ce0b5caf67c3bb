import YzFramework.Library.Run
import YzFramework.Generator.SnowFlake
import YzFramework.Unique.IdBuilder
import YzFramework.Id.IdWorker
import YzFramework.Redis.RedisLock
import YzFramework.Redis.StockDecrease
import YzFramework.Redis.CouponConservation
import YzFramework.Redis.RateLimiting
import YzFramework.Redis.MultiValueSet
import YzFramework.Redis.NgxLuaRedis
import YzFramework.Util.Money
import YzFramework.Util.TextTemplate
import YzFramework.Data.MapperFactory
import YzFramework.Data.CheckFilter
import YzFramework.Data.DynamicDataSource
import YzFramework.Data.SlaveCounter
import YzFramework.Data.MultiDataSource
import YzFramework.Job.Redelivery
import YzFramework.Job.JobLoss
import YzFramework.Job.DelayedControl
import YzFramework.Job.SequentialMode
import YzFramework.Job.DelayArithmetic
import YzFramework.Job.ReturnStatus
import YzFramework.Queue.MessageUtil
import YzFramework.Bizlogging.LogWorker
import YzFramework.Security.ApiRequestDataHandler
import YzFramework.Cache.ZookeeperLocalCacheFactory
import YzFramework.Cache.RedisInJVMCacheFactory
import YzFramework.Cache.RetryWorkers
import YzFramework.Cache.RedisCache
import YzFramework.Cache.RedisCacheFactory
import YzFramework.Cache.RedisEhCache
import YzFramework.Cache.SharedRedis
import YzFramework.Cache.FailedAdd
import YzFramework.Registry.ServiceRegistryMonitor
import YzFramework.Registry.MappingName
import YzFramework.Registry.ServiceRegistryCenter
import YzFramework.Config.RegistryReader
import YzFramework.Config.SubtreeReload
import YzFramework.Config.LocalProperties
import YzFramework.Config.PropertiesReload
import YzFramework.Zookeeper.ZK
import YzFramework.Zookeeper.Subtree
import YzFramework.Config.NameMapping
import YzFramework.Registry.ServiceArguments
import YzFramework.Util.IPWhiteList
import YzFramework.Util.RegistryAddress
import YzFramework.Security.RequestDataFormat
import YzFramework.Util.QueryString
import YzFramework.Http.CookieHttpSessionStrategy
import YzFramework.Http.SessionAlias
import YzFramework.Http.SessionUrl
import YzFramework.Http.FormPost
import YzFramework.Util.MapUtil
import YzFramework.Util.CollectionUtils
import YzFramework.Util.CompareDifferenceUtil
import YzFramework.Library.Decimal
import YzFramework.Util.StringUtil
import YzFramework.Library.BigDecimal
import YzFramework.Util.NumberUtil
import YzFramework.Library.ByteStream
import YzFramework.Util.FileReaders
import YzFramework.Library.FileSystem
import YzFramework.Util.FileDelete
import YzFramework.Util.FileWrite
import YzFramework.Util.ZipUitls
import YzFramework.Doc.ExcelUtil
import YzFramework.Util.BeanUtil
import YzFramework.Util.ObjectDifference
import YzFramework.Util.JsonMap
import YzFramework.Doc.WordUtil
import YzFramework.Util.FillString
import YzFramework.Util.CommonUtil
import YzFramework.Library.LinkedMap
import YzFramework.Library.LittleEndian
import YzFramework.Util.ByteUtil
import YzFramework.Util.DateUtil
import YzFramework.Library.Pattern
import YzFramework.Doc.SpecialUtil
import YzFramework.Doc.Placeholder
import YzFramework.Doc.ReplaceText
import YzFramework.Dubbo.InvokeLog
import YzFramework.Library.Code
import YzFramework.Util.TextCodes
